import BlobsDb.Server.Moves

/-!
# Reads that are blocked

A read that waits fits its database: its client is in a transaction, and what it asks for exists
(`Fits`). It is blocked by the clients in a transaction that hold its locks in conflict
(`BlockedBy`). As long as there is such a client, trying the read does not answer it, and trying
other reads does not change that (`Steady`). A read that was tried in vain is blocked.
-/

namespace BlobsDb

namespace LockBook

variable {κ γ : Type*} [DecidableEq κ] [DecidableEq γ] {active active' : γ → Bool}
  {b : LockBook κ γ} {c z : γ} {w : Bool} {l : κ}

omit [DecidableEq κ] in
/-- Only whether the client itself is active matters for its conflicts. -/
theorem mem_conflicts_of_active (h : z ∈ b.conflicts active c w l) (hz : active' z = true) :
    z ∈ b.conflicts active' c w l := by
  unfold LockBook.conflicts at h ⊢
  cases hl : b.locks l with
  | none =>
    rw [hl] at h
    cases h
  | some lock =>
    rw [hl] at h
    obtain ⟨h1, -, h2⟩ := SharedLock.mem_collectConflictingClients.mp h
    exact SharedLock.mem_collectConflictingClients.mpr ⟨h1, hz, h2⟩

end LockBook

namespace Server

variable {P : Permit} {s s' : Server} {c d x : ClientId} {name name' : DatabaseName} {od od' : OpenDatabase}
  {m q : BlobsRead} {b : Bool} {t : Tree 3}

/-- A client in a transaction keeps a read from one of its locks. -/
def BlockedBy (s : Server) (name : DatabaseName) (q : BlobsRead) (x : ClientId) : Prop :=
  ∃ t ls, s.tree name = some t ∧ forEachLockInMessage t q.blobs = some ls ∧
    ∃ l ∈ ls, x ∈ (s.locks name).conflicts s.active q.clientId q.needsWriteLock l

/-- A read waits because some client blocks it. -/
structure Blocked (s : Server) (name : DatabaseName) (q : BlobsRead) : Prop where
  fits : s.Fits name q
  blockedBy : ∃ x, s.BlockedBy name q x

theorem tree_of_some (hod : s.databases name = some od) :
    s.tree name = od.database.tree od.database.snapshot := by
  rw [tree, hod]
  rfl

theorem locks_of_some (hod : s.databases name = some od) : s.locks name = od.locks := by
  rw [locks, hod]
  rfl

theorem tree_setDatabase_self :
    (s.setDatabase name od).tree name = od.database.tree od.database.snapshot :=
  tree_of_some databases_setDatabase_self

theorem tree_setDatabase_of_ne (h : name' ≠ name) :
    (s.setDatabase name od).tree name' = s.tree name' := by
  rw [tree, databases_setDatabase_of_ne h]
  rfl

theorem locks_setDatabase_self : (s.setDatabase name od).locks name = od.locks :=
  locks_of_some databases_setDatabase_self

theorem locks_setDatabase_of_ne (h : name' ≠ name) :
    (s.setDatabase name od).locks name' = s.locks name' := by
  rw [locks, databases_setDatabase_of_ne h]
  rfl

/-- Only other clients in a transaction block a read. -/
theorem BlockedBy.active (h : s.BlockedBy name q x) : x ≠ q.clientId ∧ s.active x = true := by
  obtain ⟨t, ls, -, -, l, -, hx⟩ := h
  exact LockBook.ne_of_mem_conflicts hx

/-! ### Steady changes -/

/-- The clients and the trees of the databases are the same, and no conflict of locks is
solved. -/
structure Steady (s s' : Server) : Prop where
  clients : s'.clients = s.clients
  tree : ∀ name, s'.tree name = s.tree name
  conflicts : ∀ name d w l x, x ∈ (s.locks name).conflicts s.active d w l →
    x ∈ (s'.locks name).conflicts s.active d w l

namespace Steady

theorem refl (s : Server) : Steady s s := ⟨rfl, fun _ => rfl, fun _ _ _ _ _ h => h⟩

theorem active (h : Steady s s') : s'.active = s.active := by
  funext c
  rw [Server.active, h.clients, Server.active]

theorem trans {s'' : Server} (h : Steady s s') (h' : Steady s' s'') : Steady s s'' :=
  ⟨h'.clients.trans h.clients, fun name => (h'.tree name).trans (h.tree name),
    fun name d w l x hx => h.active ▸ h'.conflicts name d w l x
      (h.active.symm ▸ h.conflicts name d w l x hx)⟩

/-- A database that keeps its tree and the conflicts of its locks. -/
theorem setDatabase (hod : s.databases name = some od)
    (ht : od'.database.tree od'.database.snapshot = od.database.tree od.database.snapshot)
    (hl : ∀ d w l x, x ∈ od.locks.conflicts s.active d w l →
      x ∈ od'.locks.conflicts s.active d w l) : Steady s (s.setDatabase name od') := by
  refine ⟨rfl, fun name' => ?_, fun name' d w l x hx => ?_⟩
  · by_cases hne : name' = name
    · subst hne
      rw [tree_setDatabase_self, ht, tree_of_some hod]
    · exact tree_setDatabase_of_ne hne
  · by_cases hne : name' = name
    · subst hne
      rw [locks_setDatabase_self]
      rw [locks_of_some hod] at hx
      exact hl d w l x hx
    · rwa [locks_setDatabase_of_ne hne]

/-- What fits still fits. -/
theorem fits (h : Steady s s') (hq : s.Fits name q) : s'.Fits name q where
  active := by rw [h.active, hq.active]
  getDatabase := by
    rw [Server.getDatabase, h.clients]
    exact hq.getDatabase
  isMVCC := by
    rw [Server.isDatabaseMVCC, h.clients]
    exact hq.isMVCC
  isDirtyRead := hq.isDirtyRead
  exist := by
    rw [h.tree]
    exact hq.exist

/-- Who blocks a read still does. -/
theorem blockedBy (h : Steady s s') (hq : s.BlockedBy name q x) : s'.BlockedBy name q x := by
  obtain ⟨t, ls, ht, hls, l, hl, hx⟩ := hq
  refine ⟨t, ls, (h.tree name).trans ht, hls, l, hl, ?_⟩
  rw [h.active]
  exact h.conflicts name _ _ l x hx

/-- What is blocked still is. -/
theorem blocked (h : Steady s s') (hq : s.Blocked name q) : s'.Blocked name q :=
  ⟨h.fits hq.fits, hq.blockedBy.imp fun _ => h.blockedBy⟩

end Steady

/-! ### Trying a read -/

theorem setDatabase_setDatabase : (s.setDatabase name od).setDatabase name od' =
    s.setDatabase name od' := by
  simp only [setDatabase, Function.update_idem]

/-- What looking for the locks of a read leaves behind. -/
theorem acquireLocks_spec {active : ClientId → Bool} {t : Tree 3} {v : Tree 3}
    (h : acquireLocks active m t od = some (b, od')) (hinv : od.database.Inv v) :
    ∃ db, Database.Looked od.database.snapshot od.database db ∧
      (b = false → od' = { od with database := db } ∧
        ∀ ls, forEachLockInMessage t m.blobs = some ls →
          ∃ l ∈ ls, od.locks.canAcquire active m.clientId l m.needsWriteLock = false) ∧
      (b = true → ∃ ls, forEachLockInMessage t m.blobs = some ls ∧
        (∀ l ∈ ls, od.locks.canAcquire active m.clientId l m.needsWriteLock = true) ∧
        (∀ a ∈ m.blobs, ∀ path ∈ lockPaths t a.toBlobLocation, db.LoadedAlong path) ∧
        od' = { od with
          database := db, locks := od.locks.acquireLocks m.clientId m.needsWriteLock ls }) := by
  obtain ⟨db, hall, hcases⟩ := acquireLocks_eq_some h
  have hp : Progress
      (fun l db => some (od.locks.canAcquire active m.clientId l m.needsWriteLock, db))
      (fun path (db : Database) => db.loadPath db.snapshot path)
      fun db db' => Database.Looked db.snapshot db db' :=
    { refl := fun db => Database.Looked.refl _ db
      trans := fun db db' db'' h h' => h.trans (h.snapshot ▸ h')
      test := fun l db b db' h => by
        cases h
        exact Database.Looked.refl _ _
      load := fun path db db' h => Database.Looked.of_loadPath h }
  obtain ⟨h1, h2, h3⟩ := allLocksInMessage_spec hp hall
  refine ⟨db, h1, fun hb => ?_, fun hb => ?_⟩
  · rcases hcases with ⟨-, rfl⟩ | ⟨hb', -⟩
    · refine ⟨rfl, fun ls hls => ?_⟩
      obtain ⟨l, hl, st₁, st₂, -, htest, -⟩ := h3 hb ls hls
      exact ⟨l, hl, (Prod.mk.inj (Option.some.inj htest)).1⟩
    · exact absurd (hb.symm.trans hb') (by decide)
  · rcases hcases with ⟨hb', -⟩ | ⟨-, ls, hls, rfl⟩
    · exact absurd (hb.symm.trans hb') (by decide)
    · obtain ⟨ls', hls', htest, hload⟩ := h2 hb
      obtain rfl := Option.some.inj (hls.symm.trans hls')
      refine ⟨ls, hls, fun l hl => ?_, fun a ha path hpath => ?_, rfl⟩
      · obtain ⟨st₁, st₂, -, htest, -⟩ := htest l hl
        exact (Prod.mk.inj (Option.some.inj htest)).1
      · obtain ⟨db₁, db₂, hl₁, hload, hl₂⟩ := hload a ha path hpath
        have hloads := hl₁.loads hinv.wf hinv.path
        have hinv₁ := hloads.inv hinv
        have hloads₂ := Database.loads_of_loadPath hinv₁.wf hinv₁.path hload
        have hinv₂ := hloads₂.inv hinv₁
        exact hinv₂.loadedAlong_loads (hl₂.loads hinv₂.wf hinv₂.path) (hinv₁.loadedAlong hload)

/-! ### Enumerating, testing and collecting -/

/-- The client has a lock on the location that a read of another client is in conflict with: a
write lock, or a read lock when the read needs a write lock. -/
def HoldsInConflict (od : OpenDatabase) (x : ClientId) (write : Bool) (l : BlobLocation) : Prop :=
  ∃ lock, od.locks.locks l = some lock ∧ (lock.write = some x ∨ write = true ∧ x ∈ lock.read)

/-- A conflict is a lock of another client in a transaction. -/
theorem mem_conflicts {active : ClientId → Bool} {w : Bool} {l : BlobLocation}
    (h : x ∈ od.locks.conflicts active c w l) :
    x ≠ c ∧ active x = true ∧ HoldsInConflict od x w l := by
  unfold LockBook.conflicts at h
  split at h
  · cases h
  · next lock hlock =>
    obtain ⟨hne, hactive, hhold⟩ := SharedLock.mem_collectConflictingClients.mp h
    exact ⟨hne, hactive, lock, hlock, hhold.imp_right And.right⟩

/-- Loading has an answer in a database whose objects can be seen. -/
theorem exists_loads {v : Tree 3} (path : List UInt32) (db : Database) (h : db.Inv v) :
    ∃ db', db.loadPath db.snapshot path = some db' ∧ db'.Inv v := by
  obtain ⟨db', hload⟩ := h.exists_loadPath path
  exact ⟨db', hload, (h.loads_of_loadPath hload).inv h⟩

/-- Testing the locations to lock of a location is testing those that are enumerated. -/
theorem allLocksForLocation_eq {t v : Tree 3} {db : Database} {l : BlobLocation}
    {ls : List BlobLocation} (hinv : db.Inv v) (hls : forEachLockForLocation t l = some ls)
    (p : BlobLocation → Bool) :
    ∃ db', allLocksForLocation t (fun l db => some (p l, db))
      (fun path db => db.loadPath db.snapshot path) (fun _ _ _ => false) (fun _ _ => false) l db =
        some (ls.all p, db') := by
  obtain ⟨b, db', h, -⟩ := exists_allLocksForLocation (P := fun db : Database => db.Inv v)
    (fun l db hdb => ⟨p l, db, rfl, hdb⟩) exists_loads hls hinv
  refine ⟨db', h.trans ?_⟩
  have hp : Progress (fun l (db : Database) => some (p l, db))
      (fun path (db : Database) => db.loadPath db.snapshot path) fun _ _ => True :=
    ⟨fun _ => trivial, fun _ _ _ _ _ => trivial, fun _ _ _ _ _ => trivial,
      fun _ _ _ _ => trivial⟩
  obtain ⟨-, hall, hfail⟩ := allLocksForLocation_spec hp h
  have htested : ∀ {b : Bool} {l'}, Tested (fun l db => some (p l, db)) (fun _ _ => True) b db db' l' →
      p l' = b := fun ⟨_, _, _, htest, _⟩ => (Prod.mk.inj (Option.some.inj htest)).1
  cases b with
  | false =>
    obtain ⟨l', hl', ht⟩ := hfail rfl ls hls
    rw [List.all_eq_false.mpr ⟨l', hl', by rw [htested ht]; exact Bool.false_ne_true⟩]
  | true =>
    rcases hall rfl with ⟨-, _, -, -, ⟨-, -, hc⟩ | ⟨-, -, hc⟩⟩ | ⟨ls', hls', ht, -⟩
    · cases hc
    · cases hc
    · obtain rfl := Option.some.inj (hls.symm.trans hls')
      rw [List.all_eq_true.mpr fun l' hl' => htested (ht l' hl')]

/-- Asking for locks that exist has an answer. -/
theorem exists_acquireLocks {active : ClientId → Bool} {t v : Tree 3} {ls : List BlobLocation}
    (hinv : od.database.Inv v) (hls : forEachLockInMessage t m.blobs = some ls) :
    ∃ b od', acquireLocks active m t od = some (b, od') := by
  have htest : ∀ l (db : Database), db.Inv v → ∃ b db',
      some (od.locks.canAcquire active m.clientId l m.needsWriteLock, db) = some (b, db') ∧
        db'.Inv v := fun l db hdb => ⟨_, db, rfl, hdb⟩
  obtain ⟨b, db, h, -⟩ := exists_allLocksInMessage htest exists_loads hls hinv
  unfold acquireLocks
  dsimp only
  rw [h]
  cases b with
  | false => exact ⟨false, _, rfl⟩
  | true =>
    rw [hls]
    exact ⟨true, _, rfl⟩

/-- A read whose locations exist in the tree `t` of the active snapshot: no segment or cluster is
missing when the locations to lock are enumerated, testing them is testing those that are
enumerated, and the locks of the read are refused if and only if there are conflicts, each with
another client in a transaction that has a lock. -/
theorem acquireLocks_refuses_iff {accepts : Database → List BlobData → Prop}
    {active : ClientId → Bool} {db : Database} (hreach : od.database.Reachable accepts)
    (hexist : Database.ensureRequestedBlobsExist od.database.snapshot t m.lockMode m.blobs
      od.database = some (none, db)) :
    (∀ a ∈ m.blobs, ∃ ls, forEachLockForLocation t a.toBlobLocation = some ls ∧
      ∀ p : BlobLocation → Bool, ∃ db', allLocksForLocation t (fun l db => some (p l, db))
        (fun path db => db.loadPath db.snapshot path) (fun _ _ _ => false) (fun _ _ => false)
        a.toBlobLocation db = some (ls.all p, db')) ∧
    ∃ ls conflicts granted od', forEachLockInMessage t m.blobs = some ls ∧
      collectLockConflicts active m t { od with database := db } = some conflicts ∧
      acquireLocks active m t { od with database := db } = some (granted, od') ∧
      (granted = false ↔ conflicts ≠ []) ∧
      ∀ x ∈ conflicts, x ≠ m.clientId ∧ active x = true ∧
        ∃ l ∈ ls, HoldsInConflict od x m.needsWriteLock l := by
  obtain ⟨v, hinv⟩ := hreach.exists_inv
  obtain ⟨hlooked, hfound, -⟩ := Database.ensureRequestedBlobsExist_spec hexist
  have hinv₁ : db.Inv v := (hlooked.loads hinv.wf hinv.path).inv hinv
  refine ⟨fun a ha => ?_, ?_⟩
  · obtain ⟨ls, hls⟩ := Option.isSome_iff_exists.mp
      (isSome_forEachLockForLocation (hfound rfl a ha).1)
    exact ⟨ls, hls, allLocksForLocation_eq hinv₁ hls⟩
  obtain ⟨ls, hls⟩ := Option.isSome_iff_exists.mp
    (isSome_forEachLockInMessage fun a ha => (hfound rfl a ha).1)
  obtain ⟨granted, od', hacquire⟩ : ∃ b od', acquireLocks active m t { od with database := db } =
      some (b, od') := exists_acquireLocks hinv₁ hls
  refine ⟨ls, ls.flatMap (od.locks.conflicts active m.clientId m.needsWriteLock), granted, od', hls,
    by rw [collectLockConflicts, hls]; rfl, hacquire, ?_, fun x hx => ?_⟩
  · obtain ⟨_, -, hrefused, hgranted⟩ := acquireLocks_spec hacquire hinv₁
    rw [Ne, List.flatMap_eq_nil_iff]
    cases granted with
    | false =>
      obtain ⟨l, hl, hcan⟩ := (hrefused rfl).2 ls hls
      refine iff_of_true rfl fun hfree => Bool.eq_false_iff.mp hcan
        (LockBook.canAcquire_iff.mpr fun x hx => ?_)
      rw [hfree l hl] at hx
      cases hx
    | true =>
      obtain ⟨ls', hls', hcan, -⟩ := hgranted rfl
      obtain rfl := Option.some.inj (hls.symm.trans hls')
      refine iff_of_false (by decide) (not_not_intro fun l hl => ?_)
      exact List.eq_nil_iff_forall_not_mem.mpr (LockBook.canAcquire_iff.mp (hcan l hl))
  · obtain ⟨l, hl, hx⟩ := List.mem_flatMap.mp hx
    obtain ⟨hne, hactive, hhold⟩ := mem_conflicts hx
    exact ⟨hne, hactive, l, hl, hhold⟩

/-- A new database in which the client `2` has a write lock. -/
def lockedByOther : OpenDatabase :=
  ⟨.initializeInMemory, LockBook.empty.acquireLocks 2 true [⟨0, 0, 0⟩], [], 1⟩

/-- The client `1` wants to delete the segment. -/
def deletesSegment : BlobsRead := ⟨1, 0, .delete, -1, [⟨⟨0, segmentDeleteId, clusterDeleteId⟩, 0⟩]⟩

/-- The client `1` wants to delete the segment of which the client `2` is writing a blob. -/
theorem acquireLocks_refuses_iff_lockedByOther : ∃ t db,
    lockedByOther.database.tree lockedByOther.database.snapshot = some t ∧
      (∀ a ∈ deletesSegment.blobs, ∃ ls, forEachLockForLocation t a.toBlobLocation = some ls ∧
        ∀ p : BlobLocation → Bool, ∃ db', allLocksForLocation t (fun l db => some (p l, db))
          (fun path db => db.loadPath db.snapshot path) (fun _ _ _ => false) (fun _ _ => false)
          a.toBlobLocation db = some (ls.all p, db')) ∧
      ∃ ls conflicts granted od', forEachLockInMessage t deletesSegment.blobs = some ls ∧
        collectLockConflicts (fun _ => true) deletesSegment t
          { lockedByOther with database := db } = some conflicts ∧
        acquireLocks (fun _ => true) deletesSegment t
          { lockedByOther with database := db } = some (granted, od') ∧
        (granted = false ↔ conflicts ≠ []) ∧
        (∀ x ∈ conflicts, x ≠ 1 ∧ true = true ∧ ∃ l ∈ ls, HoldsInConflict lockedByOther x true l) ∧
        (⟨0, 0, 0⟩ : BlobLocation) ∈ ls ∧ conflicts = [2] ∧ granted = false := by
  have hreach : lockedByOther.database.Reachable fun _ _ => True := ⟨_, Or.inl rfl, .refl⟩
  have hrun : ((lockedByOther.database.tree lockedByOther.database.snapshot).bind fun t =>
      (Database.ensureRequestedBlobsExist lockedByOther.database.snapshot t .delete
        deletesSegment.blobs lockedByOther.database).map fun r =>
          (r.1, (forEachLockInMessage t deletesSegment.blobs).map fun ls =>
            (decide ((⟨0, 0, 0⟩ : BlobLocation) ∈ ls),
              ls.flatMap (lockedByOther.locks.conflicts (fun _ => true) 1 true)))) =
      some (none, some (true, [2])) := by
    decide +kernel
  obtain ⟨t, ht, hrun⟩ := Option.bind_eq_some_iff.mp hrun
  obtain ⟨⟨error, db⟩, hexist, hrun⟩ := Option.map_eq_some_iff.mp hrun
  obtain ⟨hnone, hlocks⟩ := Prod.mk.inj hrun
  obtain rfl : error = none := hnone
  obtain ⟨ls', hls', hlocks⟩ := Option.map_eq_some_iff.mp hlocks
  obtain ⟨hmem, hconflicts⟩ := Prod.mk.inj hlocks
  obtain ⟨hall, ls, conflicts, granted, od', hls, hcollect, hacquire, hiff, hheld⟩ :=
    @acquireLocks_refuses_iff lockedByOther deletesSegment t _ (fun _ => true) db hreach hexist
  obtain rfl := Option.some.inj (hls.symm.trans hls')
  have htwo : conflicts = [2] := by
    rw [collectLockConflicts, hls] at hcollect
    exact (Option.some.inj hcollect).symm.trans hconflicts
  exact ⟨t, db, ht, hall, ls, conflicts, granted, od', hls, hcollect, hacquire, hiff, hheld,
    of_decide_eq_true hmem, htwo, hiff.mpr (htwo ▸ List.cons_ne_nil _ _)⟩

/-- A read that is granted its locks. -/
theorem ReadOn.grantable {t : Tree 3} {db : Database} {snapshot : Pointer}
    (hread : ReadOn m s name od false snapshot t db none) (hdirty : m.isDirtyRead = false)
    (hacquire : acquireLocks s.active m t { od with database := db } = some (true, od'))
    (hs : Healthy s) : ∃ db' ls, Database.Looked od.database.snapshot od.database db' ∧
      (s.setDatabase name { od with database := db' }).Grantable name { od with database := db' } m
        t ls ∧
      od' = { od with
        database := db', locks := od.locks.acquireLocks m.clientId m.needsWriteLock ls } := by
  obtain ⟨v, hinv⟩ := hs.exists_inv hread.database
  obtain rfl := Option.some.inj hread.snapshotFor
  obtain ⟨hlooked, hexist, -⟩ := Database.ensureRequestedBlobsExist_spec hread.exist
  have hloads := hlooked.loads hinv.wf hinv.path
  have hinv₁ := hloads.inv hinv
  obtain ⟨db', hlooked', -, hgranted⟩ := acquireLocks_spec hacquire hinv₁
  obtain ⟨ls, hls, hcan, hloaded, rfl⟩ := hgranted rfl
  have hloads' := hlooked'.loads hinv₁.wf hinv₁.path
  rw [hlooked.snapshot] at hlooked'
  refine ⟨db', ls, hlooked.trans hlooked', ⟨hread.active.resolve_left (by simp [hdirty]),
    hread.getDatabase, ?_, hdirty, ?_, fun a ha => (hexist rfl a ha).1, hls, hcan,
    fun a ha path hpath => ?_⟩, rfl⟩
  · have hmvcc : s.isDatabaseMVCC m.clientId m.databaseId = false := by
      simpa [hdirty] using hread.isMVCC.symm
    exact hmvcc
  · have h1 := (hloads'.inv hinv₁).view
    have h2 := hread.tree
    rw [hinv.view] at h2
    exact h1.trans h2
  · rcases List.mem_cons.mp hpath with rfl | hpath
    · obtain ⟨-, db₁, db₂, h1, h2, h3⟩ := hexist rfl a ha
      have hl₁ := h1.loads hinv.wf hinv.path
      have hi₁ := hl₁.inv hinv
      rw [← h1.snapshot] at h2
      have hl₂ := Database.loads_of_loadPath hi₁.wf hi₁.path h2
      have hi₂ := hl₂.inv hi₁
      have hl₃ := h3.loads hi₂.wf hinv.path
      exact (hl₃.inv hi₂).loadedAlong_loads hloads'
        (hi₂.loadedAlong_loads hl₃ (hi₁.loadedAlong h2))
    · exact hloaded a ha path hpath

theorem moves_sendAll (rs : List BlobsReadResponse) : Moves P s (s.sendAll c rs) := by
  induction rs generalizing s with
  | nil =>
    have hnil : s.sendAll c [] = s := by simp [sendAll]
    rw [hnil]
  | cons r rs ih =>
    have hcons : s.sendAll c (r :: rs) = (s.send c (.blobsRead r)).sendAll c rs := by
      simp [sendAll, send]
    rw [hcons]
    exact .head (.send c _) ih

theorem moves_looked (hod : s.databases name = some od) {p : Pointer} {db : Database}
    (hp : od.database.snapshotFor b = some p)
    (hl : Database.Looked p od.database db) :
    Moves P s (s.setDatabase name { od with database := db }) :=
  .single (.database hod (.looked hp hl))

/-- Trying a read is a sequence of moves. -/
theorem TriedRead.moves (h : TriedRead m s b s') (hs : Healthy s) (hends : P.ends) :
    Moves P s s' := by
  cases h with
  | error hne => exact .single (.send _ _)
  | missing hread =>
    exact .tail (moves_looked hread.database hread.snapshotFor
      (Database.ensureRequestedBlobsExist_spec hread.exist).1) (.send _ _)
  | read hread hfree hrs =>
    exact .trans (moves_looked hread.database hread.snapshotFor
      (Database.ensureRequestedBlobsExist_spec hread.exist).1) (moves_sendAll _)
  | refused hread hdirty hacquire =>
    obtain ⟨v, hinv⟩ := hs.exists_inv hread.database
    obtain rfl := Option.some.inj hread.snapshotFor
    have hlooked := (Database.ensureRequestedBlobsExist_spec hread.exist).1
    obtain ⟨db', hlooked', hrefused, -⟩ :=
      acquireLocks_spec hacquire ((hlooked.loads hinv.wf hinv.path).inv hinv)
    obtain ⟨rfl, -⟩ := hrefused rfl
    exact moves_looked (b := false) hread.database rfl
      (hlooked.trans (hlooked.snapshot ▸ hlooked'))
  | @granted name od od' snapshot t db rs hread hdirty hacquire hrs =>
    obtain ⟨db', ls, hlooked, hgrant, rfl⟩ := hread.grantable hdirty hacquire hs
    have hmove : Moves P (s.setDatabase name { od with database := db' }) _ :=
      .single (.database databases_setDatabase_self (.granted hends hgrant))
    rw [setDatabase_setDatabase] at hmove
    exact (moves_looked (b := false) hread.database rfl hlooked).trans
      (hmove.trans (moves_sendAll _))

/-- Trying a read leaves the databases in order. -/
theorem healthy_of_triedRead (h : TriedRead m s b s') (hs : Healthy s) : Healthy s' := by
  have hmoves : Moves .all s s' := h.moves hs trivial
  exact hmoves.healthy hs

/-- Looking something up leaves the tree. -/
theorem Healthy.tree_looked (hs : Healthy s) (hod : s.databases name = some od) {mvcc : Bool}
    {p : Pointer} {db : Database} (hp : od.database.snapshotFor mvcc = some p)
    (hl : Database.Looked p od.database db) :
    db.tree db.snapshot = od.database.tree od.database.snapshot := by
  obtain ⟨v, hinv⟩ := hs.exists_inv hod
  have hloads := hl.loads hinv.wf ((hs.databases name od hod).path_of_snapshotFor hp)
  exact (hloads.inv hinv).view.trans hinv.view.symm

/-- Looking something up gives up no locks. -/
theorem Steady.looked (hs : Healthy s) (hod : s.databases name = some od) {p : Pointer}
    {db : Database} (hp : od.database.snapshotFor b = some p)
    (hl : Database.Looked p od.database db) :
    Steady s (s.setDatabase name { od with database := db }) :=
  .setDatabase hod (hs.tree_looked hod hp hl) fun _ _ _ _ hx => hx

/-- Granting locks gives up none. -/
theorem Steady.granted {ls : List BlobLocation} (hod : s.databases name = some od)
    (hgrant : s.Grantable name od m t ls) :
    Steady s (s.setDatabase name { od with
      locks := od.locks.acquireLocks m.clientId m.needsWriteLock ls }) :=
  .setDatabase hod rfl fun _ _ _ _ hx => LockBook.mem_conflicts_acquireLocks hgrant.canAcquire hx

/-- What is sent, and what waits, does not matter. -/
theorem Steady.of_eq (hc : s'.clients = s.clients) (hd : s'.databases = s.databases) :
    Steady s s' := by
  refine ⟨hc, fun name => ?_, fun name d w l x hx => ?_⟩
  · rw [Server.tree, hd, Server.tree]
  · rw [locks, hd]
    exact hx

/-- Trying a read is steady. -/
theorem TriedRead.steady (h : TriedRead m s b s') (hs : Healthy s) : Steady s s' := by
  cases h with
  | error hne => exact .of_eq rfl rfl
  | missing hread =>
    exact (Steady.looked hs hread.database hread.snapshotFor
      (Database.ensureRequestedBlobsExist_spec hread.exist).1).trans (.of_eq rfl rfl)
  | read hread hfree hrs =>
    exact (Steady.looked hs hread.database hread.snapshotFor
      (Database.ensureRequestedBlobsExist_spec hread.exist).1).trans (.of_eq rfl rfl)
  | refused hread hdirty hacquire =>
    obtain ⟨v, hinv⟩ := hs.exists_inv hread.database
    obtain rfl := Option.some.inj hread.snapshotFor
    have hlooked := (Database.ensureRequestedBlobsExist_spec hread.exist).1
    obtain ⟨db', hlooked', hrefused, -⟩ :=
      acquireLocks_spec hacquire ((hlooked.loads hinv.wf hinv.path).inv hinv)
    obtain ⟨rfl, -⟩ := hrefused rfl
    exact .looked (b := false) hs hread.database rfl
      (hlooked.trans (hlooked.snapshot ▸ hlooked'))
  | granted hread hdirty hacquire hrs =>
    obtain ⟨db', ls, hlooked, hgrant, rfl⟩ := hread.grantable hdirty hacquire hs
    have hgranted := Steady.granted databases_setDatabase_self hgrant
    rw [setDatabase_setDatabase] at hgranted
    exact (Steady.looked (b := false) hs hread.database rfl hlooked).trans
      (hgranted.trans (.of_eq rfl rfl))

/-- A read that is tried in vain is blocked. -/
theorem TriedRead.blocked (h : TriedRead m s false s') (hs : Healthy s)
    (hname : s.getDatabase m.clientId m.databaseId = some name) : s'.Blocked name m := by
  have hsteady := h.steady hs
  cases h with
  | @refused name' od od' snapshot t db hread hdirty hacquire =>
    obtain rfl := Option.some.inj (hread.getDatabase.symm.trans hname)
    obtain ⟨v, hinv⟩ := hs.exists_inv hread.database
    obtain rfl := Option.some.inj hread.snapshotFor
    obtain ⟨hlooked, hexist, -⟩ := Database.ensureRequestedBlobsExist_spec hread.exist
    obtain ⟨db', -, hrefused, -⟩ :=
      acquireLocks_spec hacquire ((hlooked.loads hinv.wf hinv.path).inv hinv)
    obtain ⟨rfl, hno⟩ := hrefused rfl
    have ht : s.tree name' = some t := (tree_of_some hread.database).trans hread.tree
    have hmvcc : s.isDatabaseMVCC m.clientId m.databaseId = false := by
      simpa [hdirty] using hread.isMVCC.symm
    have hfound := fun a ha => (hexist rfl a ha).1
    obtain ⟨ls, hls⟩ := Option.isSome_iff_exists.mp (isSome_forEachLockInMessage hfound)
    obtain ⟨l, hl, hcan⟩ := hno ls hls
    obtain ⟨x, hx⟩ : ∃ x, x ∈ od.locks.conflicts s.active m.clientId m.needsWriteLock l := by
      by_contra hfree
      exact Bool.eq_false_iff.mp hcan (LockBook.canAcquire_iff.mpr fun x hx => hfree ⟨x, hx⟩)
    refine hsteady.blocked ⟨⟨hread.active.resolve_left (by simp [hdirty]), hread.getDatabase, hmvcc,
      hdirty, t, ht, hfound⟩, x, t, ls, ht, hls, l, hl, ?_⟩
    rwa [locks_of_some hread.database]

/-- A blocked read is not answered. -/
theorem Blocked.not_tried (hq : s.Blocked name q) (h : s.tryHandleBlobsRead q = some (b, s'))
    (hs : Healthy s) : b = false := by
  obtain ⟨hfits, x, t, ls, ht, hls, l, hl, hx⟩ := hq
  obtain ⟨t', ht', hfound⟩ := hfits.exist
  obtain rfl := Option.some.inj (ht.symm.trans ht')
  obtain ⟨od, hod, htree⟩ := Option.bind_eq_some_iff.mp ht
  obtain ⟨v, hinv⟩ := hs.exists_inv hod
  rw [locks_of_some hod] at hx
  unfold tryHandleBlobsRead at h
  simp only [hfits.getDatabase, hfits.active, hfits.isMVCC, hfits.isDirtyRead, hod,
    Database.snapshotFor, htree, Bool.not_true, Bool.and_false, Bool.false_and, Bool.or_false,
    Bool.false_eq_true, if_false] at h
  split at h
  · cases h
  · next error db hexist =>
    obtain ⟨a, ha, he⟩ := (Database.ensureRequestedBlobsExist_spec hexist).2.2 error rfl
    exact absurd ((hfound a ha).symm.trans he) nofun
  · next db hexist =>
    have hlooked := (Database.ensureRequestedBlobsExist_spec hexist).1
    split at h
    · cases h
    · cases h
      rfl
    · next od' hacquire =>
      obtain ⟨db', -, -, hgranted⟩ :=
        acquireLocks_spec hacquire ((hlooked.loads hinv.wf hinv.path).inv hinv)
      obtain ⟨ls', hls', hcan, -⟩ := hgranted rfl
      obtain rfl := Option.some.inj (hls.symm.trans hls')
      exact absurd hx (LockBook.canAcquire_iff.mp (hcan l hl) x)

/-! ### Trying the reads that wait -/

/-- Queueing reads gives up no locks. -/
theorem Steady.queued {qs : List BlobsRead} (hod : s.databases name = some od) :
    Steady s (s.setDatabase name { od with queuedReads := qs }) :=
  .setDatabase hod rfl fun _ _ _ _ hx => hx

/-- A pass over waiting reads is steady, leaves those that are blocked, and what it leaves is
blocked. -/
theorem processQueuedReads_blocked {qs qs' : List BlobsRead}
    (h : processQueuedReads qs s = some (qs', s')) (hs : Healthy s) :
    Steady s s' ∧ Healthy s' ∧ (∀ q ∈ qs, ∀ name, s.Blocked name q → q ∈ qs') ∧
      ∀ q ∈ qs', ∀ name, s.getDatabase q.clientId q.databaseId = some name →
        s'.Blocked name q := by
  induction qs generalizing s qs' with
  | nil =>
    cases h
    exact ⟨.refl _, hs, fun _ hq => (nomatch hq), fun _ hq => (nomatch hq)⟩
  | cons m qs ih =>
    rw [processQueuedReads] at h
    split at h
    · cases h
    · next s₁ htry =>
      have hsteady := (triedRead htry).steady hs
      obtain ⟨h1, h2, h3, h4⟩ := ih h (healthy_of_triedRead (triedRead htry) hs)
      refine ⟨hsteady.trans h1, h2, fun q hq name hb => ?_, fun q hq name hname => h4 q hq name ?_⟩
      · rcases List.mem_cons.mp hq with rfl | hq
        · exact absurd (hb.not_tried htry hs) (by decide)
        · exact h3 q hq name (hsteady.blocked hb)
      · rw [getDatabase, hsteady.clients]
        exact hname
    · next s₁ htry =>
      obtain ⟨⟨qs₁, s₂⟩, hnext, heq⟩ := Option.map_eq_some_iff.mp h
      cases heq
      have hsteady := (triedRead htry).steady hs
      obtain ⟨h1, h2, h3, h4⟩ := ih hnext (healthy_of_triedRead (triedRead htry) hs)
      refine ⟨hsteady.trans h1, h2, fun q hq name hb => ?_, fun q hq name hname => ?_⟩
      · rcases List.mem_cons.mp hq with rfl | hq
        · exact List.mem_cons_self
        · exact List.mem_cons_of_mem _ (h3 q hq name (hsteady.blocked hb))
      · rcases List.mem_cons.mp hq with rfl | hq
        · exact h1.blocked ((triedRead htry).blocked hs hname)
        · refine h4 q hq name ?_
          rw [getDatabase, hsteady.clients]
          exact hname

/-- The same for the reads of some databases. -/
theorem tryProcessQueuedReads_blocked (h : s.tryProcessQueuedReads name = some s')
    (hs : Healthy s) : Steady s s' ∧ Healthy s' ∧
      (∀ name', ∀ q ∈ s.queue name', ∀ name, s.Blocked name q → q ∈ s'.queue name') ∧
      ∀ q ∈ s'.queue name, ∀ name, s.getDatabase q.clientId q.databaseId = some name →
        s'.Blocked name q := by
  have hother := (tryProcessQueuedReads_keeps h).2.1
  unfold tryProcessQueuedReads at h
  split at h
  · cases h
  · next od hod =>
    split at h
    · cases h
    · next qs s₁ hprocess =>
      obtain ⟨h1, h2, h3, h4⟩ := processQueuedReads_blocked hprocess hs
      obtain ⟨od₁, od₂, hod₁, hod₂, rfl⟩ := updateDatabase_eq_some_iff.mp h
      obtain rfl := Option.some.inj hod₂
      have hsteady : Steady s₁ (s₁.setDatabase name { od₁ with queuedReads := qs }) := .queued hod₁
      refine ⟨h1.trans hsteady, ?_, fun name' q hq name₁ hb => ?_, fun q hq name₁ hname => ?_⟩
      · exact h2.setDatabase (h2.databases name od₁ hod₁)
      · by_cases hne : name' = name
        · subst hne
          rw [queue_setDatabase_self]
          rw [queue_of_some hod] at hq
          exact h3 q hq name₁ hb
        · rw [hother name' hne]
          exact hq
      · rw [queue_setDatabase_self] at hq
        exact hsteady.blocked (h4 q hq name₁ hname)

/-- After the reads of some queues were tried, those left there are blocked. -/
theorem foldlM_tryProcessQueuedReads_blocked {names : List DatabaseName}
    (h : names.foldlM tryProcessQueuedReads s = some s') (hs : Healthy s) :
    Steady s s' ∧ Healthy s' ∧
      (∀ name', ∀ q ∈ s.queue name', ∀ name, s.Blocked name q → q ∈ s'.queue name') ∧
      ∀ name' ∈ names, ∀ q ∈ s'.queue name', ∀ name,
        s.getDatabase q.clientId q.databaseId = some name → s'.Blocked name q := by
  induction names generalizing s with
  | nil =>
    obtain rfl := Option.some.inj h
    exact ⟨.refl _, hs, fun _ _ hq _ _ => hq, fun _ hn => (nomatch hn)⟩
  | cons name₁ names ih =>
    rw [List.foldlM_cons] at h
    obtain ⟨s₁, h₁, h₂⟩ := Option.bind_eq_some_iff.mp h
    obtain ⟨h3, h4, h5, h6⟩ := tryProcessQueuedReads_blocked h₁ hs
    obtain ⟨h7, h8, h9, h10⟩ := ih h₂ h4
    have hsub := (foldlM_tryProcessQueuedReads h₂).2.1
    refine ⟨h3.trans h7, h8, fun name' q hq name hb => ?_, fun name' hn q hq name hname => ?_⟩
    · exact h9 name' q (h5 name' q hq name hb) name (h3.blocked hb)
    · rcases List.mem_cons.mp hn with rfl | hn
      · exact h7.blocked (h6 q ((hsub _).subset hq) name hname)
      · refine h10 name' hn q hq name ?_
        rw [getDatabase, h3.clients]
        exact hname

end Server

end BlobsDb
