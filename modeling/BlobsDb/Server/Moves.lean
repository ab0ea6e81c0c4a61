import BlobsDb.Server.Events
import BlobsDb.Server.Lookup
import BlobsDb.Storage.Keeping

/-!
# The moves of the server

Whatever the server has to deal with, its state changes by moves of a few kinds: a message is
sent, a client opens or leaves a database, its transaction begins or ends, or an open database
changes, because something is looked up, locks are granted or given up, or a commit is applied.
`Move` lists them, with what is known when they are made, so that an invariant of the server is a
matter of one case for each kind.

The first of these invariants is `Sound`: all databases are ones that runs of a database lead to.
-/

namespace BlobsDb

open Relation (ReflTransGen)

/-! ### Moves -/

namespace Server

/-- The tree of the active snapshot of an open database. -/
def tree (s : Server) (name : DatabaseName) : Option (Tree 3) :=
  (s.databases name).bind fun od => od.database.tree od.database.snapshot

/-- The locks of a database. -/
def locks (s : Server) (name : DatabaseName) : LockBook BlobLocation ClientId :=
  ((s.databases name).map OpenDatabase.locks).getD .empty

/-- The client of a read may have what it asks for, once it gets the locks. -/
structure Fits (s : Server) (name : DatabaseName) (q : BlobsRead) : Prop where
  active : s.active q.clientId = true
  getDatabase : s.getDatabase q.clientId q.databaseId = some name
  isMVCC : s.isDatabaseMVCC q.clientId q.databaseId = false
  isDirtyRead : q.isDirtyRead = false
  exist : ∃ t, s.tree name = some t ∧
    ∀ a ∈ q.blobs, (Database.requested q.lockMode t a.toBlobLocation).2 = none

end Server

/-- The entries are those of the messages of a commit that was validated, so that it may be
applied: the client is in a transaction, and the locks it was granted are its own. -/
structure Server.Validated (s : Server) (name : DatabaseName) (od : OpenDatabase) (c : ClientId)
    (us : List BlobData) (ls : List BlobLocation) : Prop where
  active : s.active c = true
  name_mem : name ∈ s.openNames c
  validated : ∃ (db : Database) (v : Tree 3) (mvcc : Bool) (ms : List TransactionCommit),
    db.Inv v ∧ us = ms.flatMap TransactionCommit.blobs ∧
    db.validateCommitMessages (od.locks.ownsWriteLock c) mvcc ms = some (.success, od.database, ls)

/-- The locks of a read may be granted: what it asks for exists and is loaded, and nobody in a
transaction is in conflict. -/
structure Server.Grantable (s : Server) (name : DatabaseName) (od : OpenDatabase) (m : BlobsRead)
    (t : Tree 3) (ls : List BlobLocation) : Prop where
  active : s.active m.clientId = true
  getDatabase : s.getDatabase m.clientId m.databaseId = some name
  isMVCC : s.isDatabaseMVCC m.clientId m.databaseId = false
  isDirtyRead : m.isDirtyRead = false
  tree : od.database.tree od.database.snapshot = some t
  requested : ∀ a ∈ m.blobs, (Database.requested m.lockMode t a.toBlobLocation).2 = none
  locks : forEachLockInMessage t m.blobs = some ls
  canAcquire : ∀ l ∈ ls, od.locks.canAcquire s.active m.clientId l m.needsWriteLock = true
  loaded : ∀ a ∈ m.blobs, ∀ path ∈ (Database.requested m.lockMode t a.toBlobLocation).1 ::
    lockPaths t a.toBlobLocation, od.database.LoadedAlong path

/-- What moves may do: which commits they may apply to a tree, whether they may end transactions,
make clients in a transaction give up locks or grant them locks, and let reads wait, whether they
may open databases, and whether readers may begin to use a kept snapshot. -/
structure Permit where
  commits : Tree 3 → List BlobData → Prop
  ends : Prop
  opens : Prop
  begins : Prop

namespace Permit

/-- Everything. -/
def all : Permit := ⟨fun _ _ => True, True, True, True⟩

/-- Everything but commits. -/
def noCommits : Permit := ⟨fun _ _ => False, True, True, True⟩

/-- What leaves databases that are not open alone. -/
def noOpens : Permit := ⟨fun _ _ => False, True, False, True⟩

/-- What begins nothing. -/
def noBegins : Permit := ⟨fun _ _ => False, True, False, False⟩

/-- What begins something, and ends and opens nothing. -/
def onlyBegins : Permit := ⟨fun _ _ => False, False, False, True⟩

/-- What ends nothing and grants nothing, and is no commit. -/
def noEnds : Permit := ⟨fun _ _ => False, False, True, True⟩

/-- What leaves the reads that wait alone. -/
def steady : Permit := ⟨fun _ _ => False, False, False, False⟩

/-- The other permits more. -/
structure Le (P P' : Permit) : Prop where
  commits : ∀ t us, P.commits t us → P'.commits t us
  ends : P.ends → P'.ends
  opens : P.opens → P'.opens
  begins : P.begins → P'.begins

theorem noBegins_le (h : P.ends) : noBegins.Le P :=
  ⟨fun _ _ => False.elim, fun _ => h, False.elim, False.elim⟩

end Permit

/-- What changes in a database that stays open. -/
inductive OpenDatabase.Change (P : Permit) (s : Server) (name : DatabaseName)
    (od : OpenDatabase) : OpenDatabase → Prop
  | used (n : ℕ) : Change P s name od { od with useCount := n }
  | queued {qs : List BlobsRead}
      (hqs : ∀ q ∈ qs, q ∈ od.queuedReads ∨ P.ends ∧ s.Fits name q) :
    Change P s name od { od with queuedReads := qs }
  | looked {mvcc : Bool} {p : Pointer} {db : Database}
      (hp : od.database.snapshotFor mvcc = some p) (hl : Database.Looked p od.database db) :
    Change P s name od { od with database := db }
  | beganMVCC (hbegins : P.begins) : Change P s name od { od with database := od.database.beginMVCC }
  | endedMVCC (hends : P.ends) (huse : 0 < od.database.mvccUseCount) :
    Change P s name od { od with database := od.database.endMVCC }
  | granted {m : BlobsRead} {t : Tree 3} {ls : List BlobLocation} (hends : P.ends)
      (hgrant : s.Grantable name od m t ls) : Change P s name od
        { od with locks := od.locks.acquireLocks m.clientId m.needsWriteLock ls }
  | gaveUp {c : ClientId} {book : LockBook BlobLocation ClientId} (hends : P.ends)
      (hactive : s.active c = true) (hbook : od.locks.releaseHeld c = some book) : Change P s name od
        { od with locks := book }
  | released {c : ClientId} {book : LockBook BlobLocation ClientId} (hactive : s.active c = false)
      (hbook : od.locks.releaseAll c = some book) : Change P s name od
        { od with locks := book }
  | told {c : ClientId} (hactive : s.active c = false) : Change P s name od
      { od with locks := (od.locks.applyRevokedLocks c).clearRevoked c }
  | committed {c : ClientId} {t : Tree 3} {us : List BlobData} {σ : Schedule}
      {ls : List BlobLocation} {od' : OpenDatabase} (hvalid : s.Validated name od c us ls)
      (ht : od.database.tree od.database.snapshot = some t) (hpermit : P.commits t us)
      (hcommit : Server.commitDatabase c us σ ls od = some od') : Change P s name od od'

namespace Server

/-- What a database may start with when it is opened. -/
def Opens (s : Server) (name : DatabaseName) (db : Database) : Prop :=
  db.New ∨ ∃ f, s.files name = some f ∧ Database.readInitialFileDatabaseData f = some db

/-- A move of the server. -/
inductive Move (P : Permit) (s : Server) : Server → Prop
  | send (c : ClientId) (r : Response) : Move P s (s.send c r)
  | client {c : ClientId} {client : Client}
      (hopen : client.openDatabases = (s.clients c).openDatabases)
      (htxn : client.hasTransaction = (s.clients c).hasTransaction) :
    Move P s (s.setClient c client)
  | mode {c : ClientId} {id : DatabaseId} {name : DatabaseName} (mvcc : Bool)
      (hactive : s.active c = false) (hname : s.getDatabase c id = some name) :
    Move P s (s.setClient c { s.clients c with
      openDatabases := (s.clients c).openDatabases.set id ⟨some name, mvcc⟩ })
  | begun {c : ClientId} (priority : Int) (hactive : s.active c = false)
      (hrevoked : ∀ name ∈ s.openNames c, ∀ od, s.databases name = some od →
        od.locks.revoked c = []) :
    Move P s (s.setClient c
      { s.clients c with hasTransaction := true, transactionPriority := priority })
  | ended {c : ClientId} (hends : P.ends) (hidle : ∀ name, ¬s.Waits c name) :
    Move P s (s.setClient c { s.clients c with hasTransaction := false })
  | entered {c : ClientId} {id : DatabaseId} {name : DatabaseName} {mvcc : Bool}
      {slots : List DatabaseSlot} (hnew : name ∉ s.openNames c)
      (hslots : enterDatabase (s.clients c).openDatabases ⟨some name, mvcc⟩ = some (id, slots)) :
    Move P s (s.setClient c { s.clients c with openDatabases := slots })
  | left {c : ClientId} {id : DatabaseId} {name : DatabaseName} (mvcc : Bool)
      (hactive : s.active c = false) (hname : s.getDatabase c id = some name)
      (hlocks : ∀ od, s.databases name = some od →
        od.locks.held c = [] ∧ od.locks.revoked c = []) :
    Move P s (s.setClient c { s.clients c with
      openDatabases := (s.clients c).openDatabases.set id ⟨none, mvcc⟩ })
  | opened {name : DatabaseName} {db : Database} (hnone : s.databases name = none)
      (hdb : s.Opens name db) (hopens : P.opens) : Move P s (s.setDatabase name ⟨db, .empty, [], 1⟩)
  | closed {name : DatabaseName} (huse : ∀ c, name ∉ s.openNames c) :
    Move P s (s.closeDatabase name)
  | database {name : DatabaseName} {od od' : OpenDatabase} (hod : s.databases name = some od)
      (hchange : od.Change P s name od') : Move P s (s.setDatabase name od')

/-- A sequence of moves. -/
abbrev Moves (P : Permit) : Server → Server → Prop :=
  ReflTransGen (Move P)

variable {P : Permit} {accepts : Database → List BlobData → Prop}
  {s s' : Server} {c : ClientId} {name : DatabaseName} {od od' : OpenDatabase}

/-! ### Databases are sound -/

end Server

namespace Database

variable {accepts : Database → List BlobData → Prop} {db db' : Database} {us : List BlobData}
  {σ : Schedule} {deleted : Deleted}

/-- The readers' snapshot is one, and there is none if there are no readers. -/
def ReadersWF (db : Database) : Prop :=
  (∀ p ∈ db.mvccSnapshot, p.path = []) ∧ (db.mvccUseCount = 0 → db.mvccSnapshot = none)

theorem New.readersWF (h : New db) : db.ReadersWF := by
  rcases h with rfl | h
  · exact ⟨fun _ hp => (nomatch hp), fun _ => rfl⟩
  · obtain ⟨h1, -⟩ := mvcc_of_open h
    exact ⟨fun p hp => absurd hp (by rw [h1]; exact Option.not_mem_none p), fun _ => h1⟩

theorem Step.readersWF (hstep : Step accepts db db') (hpath : db.snapshot.path = [])
    (h : db.ReadersWF) : db'.ReadersWF := by
  cases hstep with
  | load => exact h
  | beginMVCC =>
    refine ⟨fun p hp => ?_, fun h0 => (nomatch h0)⟩
    simp only [Database.beginMVCC] at hp
    split_ifs at hp
    · obtain rfl := Option.some.inj hp
      exact hpath
    · exact h.1 p hp
  | endMVCC =>
    simp only [ReadersWF, Database.endMVCC]
    refine ⟨fun p hp => ?_, fun h0 => if_pos h0⟩
    split_ifs at hp
    · cases hp
    · exact h.1 p hp
  | commit => exact h
  | reopen hopen =>
    obtain ⟨h1, -⟩ := mvcc_of_open hopen
    exact ⟨fun p hp => absurd hp (by rw [h1]; exact Option.not_mem_none p), fun _ => h1⟩
  | stop _ _ _ hopen =>
    obtain ⟨h1, -⟩ := mvcc_of_open hopen
    exact ⟨fun p hp => absurd hp (by rw [h1]; exact Option.not_mem_none p), fun _ => h1⟩

theorem Reachable.readersWF (h : Reachable accepts db) : db.ReadersWF := by
  obtain ⟨db₀, hnew, hsteps⟩ := h
  induction hsteps with
  | refl => exact hnew.readersWF
  | tail hsteps hstep ih =>
    obtain ⟨v, hv⟩ := Reachable.exists_inv ⟨db₀, hnew, hsteps⟩
    exact hstep.readersWF hv.path ih

theorem Reachable.step (h : Reachable accepts db) (hstep : Step accepts db db') :
    Reachable accepts db' := by
  obtain ⟨db₀, hnew, hsteps⟩ := h
  exact ⟨db₀, hnew, hsteps.tail hstep⟩

theorem Reachable.path_of_snapshotFor (h : Reachable accepts db) {mvcc : Bool} {p : Pointer}
    (hp : db.snapshotFor mvcc = some p) : p.path = [] := by
  cases mvcc with
  | true => exact h.readersWF.1 p hp
  | false =>
    obtain rfl := Option.some.inj hp
    exact h.exists_inv.choose_spec.path

theorem Reachable.looked (h : Reachable accepts db) {mvcc : Bool} {p : Pointer}
    (hp : db.snapshotFor mvcc = some p) (hl : Looked p db db') : Reachable accepts db' := by
  have hpath := h.path_of_snapshotFor hp
  have hwf := h.exists_inv.choose_spec.wf
  obtain ⟨db₀, hnew, hsteps⟩ := h
  exact ⟨db₀, hnew, hsteps.trans (hl.steps hwf hpath)⟩

/-- What applying a commit does. -/
theorem commit_eq_some (h : db.commit us σ = some (db', deleted)) :
    ∃ r, db.Commits us σ r ∧ db' = db.applyToDatabase r σ ∧ deleted = r.deleted := by
  unfold commit at h
  split at h
  · cases h
  · next r hr =>
    split_ifs at h with hlimits
    cases h
    exact ⟨r, ⟨hlimits.1, hr, fun δ hδ => ⟨(hlimits.2.1 δ hδ).1, (hlimits.2.1 δ hδ).2.1,
      (hlimits.2.1 δ hδ).2.2⟩, hlimits.2.2⟩, rfl, rfl⟩

end Database

namespace Server

variable {P : Permit} {accepts : Database → List BlobData → Prop}
  {s s' : Server} {c : ClientId} {name : DatabaseName} {od od' : OpenDatabase}

/-- All databases, open or not, are ones that runs lead to whose commits are accepted. -/
structure Sound (accepts : Database → List BlobData → Prop) (s : Server) : Prop where
  databases : ∀ name od, s.databases name = some od → od.database.Reachable accepts
  files : ∀ name f, s.files name = some f → ∃ db : Database, db.Reachable accepts ∧ db.file = f

/-- What committing does in an open database. -/
theorem commitDatabase_eq_some {us : List BlobData} {σ : Schedule} {ls : List BlobLocation}
    (h : commitDatabase c us σ ls od = some od') : ∃ r book, od.database.Commits us σ r ∧
      (od.locks.acquireImplicitWriteLocks c ls).releaseIf c r.deleted.isDeleted = some book ∧
      od' = { od with database := od.database.applyToDatabase r σ, locks := book } := by
  unfold commitDatabase at h
  split at h
  · cases h
  · next db deleted hdb =>
    obtain ⟨r, hr, rfl, rfl⟩ := Database.commit_eq_some hdb
    obtain ⟨book, hbook, rfl⟩ := Option.map_eq_some_iff.mp h
    exact ⟨r, book, hr, hbook, rfl⟩

/-- The commits of a move are accepted. -/
def AcceptedIn (P : Permit) (accepts : Database → List BlobData → Prop) (s : Server) : Prop :=
  ∀ name od c us ls t, s.databases name = some od → s.Validated name od c us ls →
    od.database.tree od.database.snapshot = some t → P.commits t us → accepts od.database us

theorem reachable_of_change (hchange : od.Change P s name od') (hod : s.databases name = some od)
    (hacc : s.AcceptedIn P accepts) (h : od.database.Reachable accepts) :
    od'.database.Reachable accepts := by
  cases hchange with
  | looked hp hl => exact h.looked hp hl
  | beganMVCC => exact h.step (.beginMVCC _)
  | endedMVCC _ huse => exact h.step (.endMVCC huse)
  | committed hvalid ht hpermit hcommit =>
    obtain ⟨r, book, hr, -, rfl⟩ := commitDatabase_eq_some hcommit
    exact h.step (.commit (hacc _ _ _ _ _ _ hod hvalid ht hpermit) hr)
  | _ => exact h

theorem Opens.reachable {db : Database} (hdb : s.Opens name db) (h : Sound accepts s) :
    db.Reachable accepts := by
  rcases hdb with hnew | ⟨f, hf, hopen⟩
  · exact ⟨db, hnew, .refl⟩
  · obtain ⟨db₀, hdb₀, rfl⟩ := h.files name f hf
    exact hdb₀.step (.reopen hopen)

theorem Sound.setDatabase (h : Sound accepts s) (hod : od.database.Reachable accepts) :
    Sound accepts (s.setDatabase name od) := by
  refine ⟨fun name' od' hod' => ?_, h.files⟩
  by_cases hne : name' = name
  · subst hne
    rw [databases_setDatabase_self] at hod'
    obtain rfl := Option.some.inj hod'
    exact hod
  · rw [databases_setDatabase_of_ne hne] at hod'
    exact h.databases name' od' hod'

theorem Sound.closeDatabase (h : Sound accepts s) : Sound accepts (s.closeDatabase name) := by
  refine ⟨fun name' od hod => ?_, fun name' f hf => ?_⟩
  · rw [closeDatabase_databases, Function.update_apply] at hod
    split_ifs at hod
    exact h.databases name' od hod
  · unfold Server.closeDatabase at hf
    split at hf
    · exact h.files name' f hf
    · next od hod =>
      cases hstorage : od.database.storage with
      | none =>
        simp only [hstorage] at hf
        exact h.files name' f hf
      | some storage =>
        simp only [hstorage, Function.update_apply] at hf
        split_ifs at hf
        · refine ⟨od.database, h.databases name od hod, ?_⟩
          rw [Database.file, hstorage]
          exact Option.some.inj hf
        · exact h.files name' f hf

/-- Moves whose commits are accepted keep the databases sound. -/
theorem Move.sound (h : Move P s s') (hacc : s.AcceptedIn P accepts)
    (hs : Sound accepts s) : Sound accepts s' := by
  cases h with
  | opened _ hdb => exact hs.setDatabase (hdb.reachable hs)
  | closed => exact hs.closeDatabase
  | database hod hchange => exact hs.setDatabase (reachable_of_change hchange hod hacc (hs.databases _ _ hod))
  | _ => exact ⟨hs.databases, hs.files⟩

theorem change_mono {P' : Permit} (h : od.Change P s name od') (hP : P.Le P') :
    od.Change P' s name od' := by
  cases h with
  | used n => exact .used n
  | queued hqs => exact .queued fun q hq => (hqs q hq).imp_right fun hq => ⟨hP.ends hq.1, hq.2⟩
  | looked hp hl => exact .looked hp hl
  | beganMVCC hbegins => exact .beganMVCC (hP.begins hbegins)
  | endedMVCC hends huse => exact .endedMVCC (hP.ends hends) huse
  | granted hends hgrant => exact .granted (hP.ends hends) hgrant
  | gaveUp hends hactive hbook => exact .gaveUp (hP.ends hends) hactive hbook
  | released hactive hbook => exact .released hactive hbook
  | told hactive => exact .told hactive
  | committed hvalid ht hpermit hcommit =>
    exact .committed hvalid ht (hP.commits _ _ hpermit) hcommit

/-- What permits more makes more moves. -/
theorem Moves.mono {P' : Permit} (h : Moves P s s') (hP : P.Le P') : Moves P' s s' := by
  refine Relation.ReflTransGen.mono (fun s s' h => ?_) s s' h
  cases h with
  | send c r => exact .send c r
  | client hopen htxn => exact .client hopen htxn
  | mode mvcc hactive hname => exact .mode mvcc hactive hname
  | begun priority hactive hrevoked => exact .begun priority hactive hrevoked
  | ended hends hidle => exact .ended (hP.ends hends) hidle
  | entered hnew hslots => exact .entered hnew hslots
  | left mvcc hactive hname hlocks => exact .left mvcc hactive hname hlocks
  | opened hnone hdb hopens => exact .opened hnone hdb (hP.opens hopens)
  | closed huse => exact .closed huse
  | database hod hchange => exact .database hod (change_mono hchange hP)

/-- The databases are sound, whatever is committed. -/
abbrev Healthy (s : Server) : Prop := Sound (fun _ _ => True) s

theorem Moves.healthy (h : Moves P s s') (hs : Healthy s) : Healthy s' := by
  induction h with
  | refl => exact hs
  | tail _ hmove ih => exact hmove.sound (fun _ _ _ _ _ _ _ _ _ _ => trivial) ih

theorem Healthy.exists_inv (h : Healthy s) (hod : s.databases name = some od) :
    ∃ v, od.database.Inv v := (h.databases name od hod).exists_inv

end Server

end BlobsDb
