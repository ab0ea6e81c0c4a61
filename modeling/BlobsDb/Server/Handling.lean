import BlobsDb.Server.Accepting
import BlobsDb.Server.Blocking
import BlobsDb.Server.Pending

/-!
# Every event is handled by moves

Each handler, as far as it has an answer, changes the server by a sequence of moves
(`Step.moves`). A property of the server that every move keeps thus holds in all runs.
-/

namespace BlobsDb

open Relation (ReflTransGen)

namespace Server

variable {P : Permit} {s s' : Server} {c : ClientId} {name : DatabaseName}
  {od od' : OpenDatabase} {m : BlobsRead} {b : Bool} {id : DatabaseId}

/-! ### Reads -/

/-- Trying a read is a sequence of moves. -/
theorem moves_tryHandleBlobsRead (h : s.tryHandleBlobsRead m = some (b, s')) (hs : Healthy s)
    (hends : P.ends) : Moves P s s' := (triedRead h).moves hs hends

theorem moves_processQueuedReads {qs qs' : List BlobsRead}
    (h : processQueuedReads qs s = some (qs', s')) (hs : Healthy s) (hends : P.ends) :
    Moves P s s' := by
  induction qs generalizing s qs' with
  | nil =>
    cases h
    exact .refl
  | cons m qs ih =>
    rw [processQueuedReads] at h
    split at h
    · cases h
    · next s₁ htry =>
      have h₁ : Moves P s s₁ := moves_tryHandleBlobsRead htry hs hends
      exact h₁.trans (ih h (h₁.healthy hs))
    · next s₁ htry =>
      have h₁ : Moves P s s₁ := moves_tryHandleBlobsRead htry hs hends
      obtain ⟨⟨qs₁, s₂⟩, hnext, heq⟩ := Option.map_eq_some_iff.mp h
      cases heq
      exact h₁.trans (ih hnext (h₁.healthy hs))

/-- Trying the reads of a queue is a sequence of moves. -/
theorem moves_tryProcessQueuedReads (h : s.tryProcessQueuedReads name = some s')
    (hs : Healthy s) (hends : P.ends) : Moves P s s' := by
  unfold tryProcessQueuedReads at h
  split at h
  · cases h
  · next od hod =>
    split at h
    · cases h
    · next qs s₁ hprocess =>
      obtain ⟨od₁, od₂, hod₁, hod₂, rfl⟩ := updateDatabase_eq_some_iff.mp h
      obtain rfl := Option.some.inj hod₂
      obtain ⟨-, hqueue, hsub, -⟩ := processQueuedReads_keeps hprocess
      refine .tail (moves_processQueuedReads hprocess hs hends) (.database hod₁ (.queued fun q hq => ?_))
      rw [← queue_of_some hod₁, hqueue, queue_of_some hod]
      exact Or.inl (hsub.subset hq)

theorem moves_foldlM_tryProcessQueuedReads {names : List DatabaseName}
    (h : names.foldlM tryProcessQueuedReads s = some s') (hs : Healthy s) (hends : P.ends) :
    Moves P s s' :=
  foldlM_induction (P := fun s' => Moves P s s') h .refl fun _ _ _ _ hstep h1 =>
    h1.trans (moves_tryProcessQueuedReads hstep (h1.healthy hs) hends)

/-! ### The end of a transaction -/

/-- Without readers there is no use of the kept snapshot to end. -/
theorem endMVCC_of_no_readers {db : Database} (h : db.ReadersWF) (huse : db.mvccUseCount = 0) :
    db.endMVCC = db := by
  cases db
  simp only [Database.endMVCC]
  simp_all [Database.ReadersWF]

/-- A reader leaves the kept snapshot. -/
theorem moves_endMVCC (hod : s.databases name = some od) (hs : Healthy s) (hends : P.ends) :
    Moves P s (s.setDatabase name { od with database := od.database.endMVCC }) := by
  rcases Nat.eq_zero_or_pos od.database.mvccUseCount with huse | huse
  · rw [endMVCC_of_no_readers (hs.databases name od hod).readersWF huse]
    have hself : s.setDatabase name od = s := by
      rw [setDatabase, Function.update_eq_self_iff.mpr hod.symm]
    rw [hself]
  · exact .single (.database hod (.endedMVCC hends huse))

/-- The reads of a client are taken off the queue. -/
theorem change_dropReads (c : ClientId) :
    od.Change P s name (od.dropReads c) :=
  .queued fun _ hq => Or.inl (List.mem_of_mem_filter hq)

/-- The client of a transaction that ends leaves a database. -/
theorem moves_leaveDatabase {slot : DatabaseSlot} (h : leaveDatabase c b s slot = some s')
    (hactive : s.active c = true) (hs : Healthy s) (hends : P.ends) : Moves P s s' := by
  unfold leaveDatabase at h
  split at h
  · obtain rfl := Option.some.inj h
    exact .refl
  · next name hslot =>
    obtain ⟨od, od', hod, hod', rfl⟩ := updateDatabase_eq_some_iff.mp h
    obtain ⟨book, hbook, rfl⟩ := Option.map_eq_some_iff.mp hod'
    have hlocks : Moves P s (s.setDatabase name { od with locks := book }) := by
      split_ifs at hbook
      · exact .single (.database hod (.gaveUp hends hactive hbook))
      · obtain rfl := Option.some.inj hbook
        exact .single (.database hod (.used od.useCount))
    have hreaders : Moves P (s.setDatabase name { od with locks := book })
        (s.setDatabase name { od with
          locks := book
          database := if slot.isMVCC then od.database.endMVCC else od.database }) := by
      split_ifs
      · have hend : Moves P _ _ :=
          moves_endMVCC databases_setDatabase_self (hlocks.healthy hs) hends
        rwa [setDatabase_setDatabase] at hend
      · exact .refl
    refine (hlocks.trans hreaders).trans ?_
    have hqueue : Moves P (s.setDatabase name { od with
          locks := book
          database := if slot.isMVCC then od.database.endMVCC else od.database }) _ :=
      .single (.database databases_setDatabase_self (change_dropReads c))
    rwa [setDatabase_setDatabase] at hqueue

theorem moves_foldlM_leaveDatabase {slots : List DatabaseSlot}
    (h : slots.foldlM (leaveDatabase c b) s = some s') (hactive : s.active c = true)
    (hs : Healthy s) (hends : P.ends) : Moves P s s' := by
  induction slots generalizing s with
  | nil =>
    obtain rfl := Option.some.inj h
    exact .refl
  | cons slot slots ih =>
    rw [List.foldlM_cons] at h
    obtain ⟨s₁, h₁, h₂⟩ := Option.bind_eq_some_iff.mp h
    have hmoves : Moves P s s₁ := moves_leaveDatabase h₁ hactive hs hends
    refine hmoves.trans (ih h₂ ?_ (hmoves.healthy hs))
    rcases leaveDatabase_eq_some h₁ with ⟨-, rfl⟩ | ⟨name, od, od', -, -, -, -, rfl⟩ <;>
      exact hactive

/-- A client that left its databases waits nowhere. -/
theorem UsersWF.idle_of_left (hwf : UsersWF s)
    (h : (s.clients c).openDatabases.foldlM (leaveDatabase c b) s = some s') : s'.Idle c := by
  rintro name ⟨m, hm, hc⟩
  obtain ⟨-, -, hqueue⟩ := foldlM_leaveDatabase h
  rw [hqueue] at hm
  split_ifs at hm with hname
  · simpa [hc] using (List.mem_filter.mp hm).2
  · exact hname (hwf.waits c name ⟨m, hm, hc⟩)

theorem moves_clientAbortTransaction (h : s.clientAbortTransaction c b = some s')
    (hactive : s.active c = true) (hwf : UsersWF s) (hs : Healthy s) (hends : P.ends) : Moves P s s' := by
  obtain ⟨s₁, hleave, rfl⟩ := Option.map_eq_some_iff.mp h
  exact .tail (moves_foldlM_leaveDatabase hleave hactive hs hends)
    (.ended hends (hwf.idle_of_left hleave))

/-- The end of a transaction is a sequence of moves, with that of the reads it lets through. -/
theorem moves_abortTransaction (h : s.abortTransaction c b = some s') (hwf : UsersWF s)
    (hs : Healthy s) (hends : P.ends) : Moves P s s' := by
  unfold abortTransaction at h
  split_ifs at h with hactive
  · split at h
    · cases h
    · next s₁ habort =>
      have h₁ : Moves P s s₁ := moves_clientAbortTransaction habort hactive hwf hs hends
      exact h₁.trans (moves_foldlM_tryProcessQueuedReads h (h₁.healthy hs) hends)
  · obtain rfl := Option.some.inj h
    exact .refl

theorem moves_abortVictim (h : s.abortVictim c = some s') (hwf : UsersWF s) (hs : Healthy s) (hends : P.ends) :
    Moves P s s' := by
  have hsend : Moves P s (s.sendError c .deadlock) := .single (.send c _)
  exact hsend.trans (moves_abortTransaction h (hwf.send _) (hsend.healthy hs) hends)

theorem moves_foldlM_abortVictim {vs : List ClientId} (h : vs.foldlM abortVictim s = some s')
    (hwf : UsersWF s) (hs : Healthy s) (hends : P.ends) : Moves P s s' := by
  refine (foldlM_induction (P := fun s' => Moves P s s' ∧ UsersWF s') h ⟨.refl, hwf⟩
    fun c _ s₁ s₂ hstep ⟨h1, h2⟩ => ?_).1
  exact ⟨h1.trans (moves_abortVictim hstep h2 (h1.healthy hs) hends),
    (abortTransaction_clients hstep (h2.send _)).1⟩

/-- Queueing a read is a move. -/
theorem FoundVictims.moves {vs : List ClientId} {s₂ : Server} (h : FoundVictims m s vs s₂)
    (hs : Healthy s) (hends : P.ends) : Moves P s s₂ := by
  obtain ⟨s₁, name, od, htry, hname, hod, rfl, -⟩ := h.queued
  have hname' : s.getDatabase m.clientId m.databaseId = some name := by
    rw [getDatabase, ← htry.tried.kept.clients]
    exact hname
  refine .tail (htry.moves hs hends) (.database hod (.queued fun q hq => ?_))
  refine (List.mem_append.mp hq).imp id fun hq => ⟨hends, ?_⟩
  rw [List.mem_singleton.mp hq]
  exact (htry.blocked hs hname').fits

/-- Handling a read is a sequence of moves, with the aborts of victims. -/
theorem moves_handleBlobsRead (h : s.handleBlobsRead m = some s') (hwf : UsersWF s)
    (hs : Healthy s) (hends : P.ends) : Moves P s s' := by
  rcases handleBlobsRead_eq_some h with htry | ⟨s₁, htry, rfl⟩ | ⟨vs, s₂, hvs, hfold⟩
  · exact htry.moves hs hends
  · exact .tail (htry.moves hs hends) (.send _ _)
  · have hfound := foundVictims hvs
    have h₂ : Moves P s s₂ := hfound.moves hs hends
    exact h₂.trans (moves_foldlM_abortVictim hfold (hfound.waiting hwf).1 (h₂.healthy hs) hends)

/-- Timeouts answer reads and take them off a queue. -/
theorem moves_checkForLockTimeouts {due : BlobsRead → Bool}
    (h : s.checkForLockTimeouts name due = some s') : Moves P s s' := by
  unfold checkForLockTimeouts at h
  split at h
  · obtain rfl := Option.some.inj h
    exact .refl
  · next od hod =>
    obtain rfl := Option.some.inj h
    have hfold : ∀ (qs : List BlobsRead) (s : Server),
        Moves P s (qs.foldl (fun s m => s.sendError m.clientId .lockTimeout) s) ∧
        (qs.foldl (fun s m => s.sendError m.clientId .lockTimeout) s).databases = s.databases :=
      fun qs => by
        induction qs with
        | nil => exact fun s => ⟨.refl, rfl⟩
        | cons q qs ih =>
          intro s
          obtain ⟨h1, h2⟩ := ih (s.sendError q.clientId .lockTimeout)
          exact ⟨.head (.send _ _) h1, h2⟩
    obtain ⟨h1, h2⟩ := hfold (od.queuedReads.filter fun m => 0 < m.lockTimeoutMs && due m) s
    exact .tail h1 (.database (h2 ▸ hod) (.queued fun _ hq => Or.inl (List.mem_of_mem_filter hq)))

/-! ### Opening and closing -/

/-- A database that is loaded is a new one, or that of the file. -/
theorem opens_of_load {mode : OpenMode} {r : DatabaseOpenResponse.Result} {db : Database}
    (h : s.load name mode = some (r, some db)) : s.Opens name db := by
  unfold load at h
  split at h
  · split_ifs at h
    · cases h
    · cases h
      exact Or.inl (Or.inl rfl)
  · split at h
    · cases h
    · cases h
    · obtain ⟨db', hdb', heq⟩ := Option.map_eq_some_iff.mp h
      cases heq
      exact Or.inl (Or.inr hdb')
    · obtain ⟨db', hdb', heq⟩ := Option.map_eq_some_iff.mp h
      cases heq
      exact Or.inl (Or.inr hdb')
    · next f hf _ _ =>
      split at h
      · cases h
      · next db' hdb' =>
        cases h
        exact Or.inr ⟨f, hf, hdb'⟩

/-- Opening a database closes it first if it is to be overwritten. Then it is loaded, if it is not
open, or used once more. -/
theorem openDatabase_moves {mode : OpenMode} {r : DatabaseOpenResponse.Result}
    (h : s.openDatabase name mode = some (r, s')) :
    ∃ s₁, (s₁ = s ∨ s.uses name = 0 ∧ s₁ = s.closeDatabase name) ∧
      (s' = s₁ ∨
        (∃ db, s₁.databases name = none ∧ s₁.Opens name db ∧
          s' = s₁.setDatabase name ⟨db, .empty, [], 1⟩) ∨
        ∃ od, s₁.databases name = some od ∧
          s' = s₁.setDatabase name { od with useCount := od.useCount + 1 }) := by
  cases opening_of_openDatabase h with
  | refused => exact ⟨s, Or.inl rfl, Or.inl rfl⟩
  | used hod => exact ⟨s, Or.inl rfl, Or.inr (Or.inr ⟨_, hod, rfl⟩)⟩
  | failed hs₁ => exact ⟨s', hs₁.imp And.right fun h => ⟨hs₁.uses, h.2.2⟩, Or.inl rfl⟩
  | loaded hs₁ hload =>
    exact ⟨_, hs₁.imp And.right fun h => ⟨hs₁.uses, h.2.2⟩,
      Or.inr (Or.inl ⟨_, hs₁.databases, opens_of_load hload, rfl⟩)⟩

/-- Opening a database is a sequence of moves. -/
theorem moves_openDatabase {mode : OpenMode} {r : DatabaseOpenResponse.Result}
    (h : s.openDatabase name mode = some (r, s')) (hwf : UsersWF s) (hopens : P.opens) : Moves P s s' := by
  obtain ⟨s₁, hs₁, hs'⟩ := openDatabase_moves h
  have hmoves : Moves P s s₁ := by
    rcases hs₁ with rfl | ⟨hzero, rfl⟩
    · exact .refl
    · exact .single (.closed (hwf.forall_not_mem hzero))
  rcases hs' with rfl | ⟨db, hnone, hdb, rfl⟩ | ⟨od, hod, rfl⟩
  · exact hmoves
  · exact hmoves.tail (.opened hnone hdb hopens)
  · exact hmoves.tail (.database hod (.used _))

/-- Releasing a database closes it at most when no client has it open. -/
theorem moves_release (h : s.release name = some s')
    (huse : s.uses name - 1 = 0 → ∀ c, name ∉ s.openNames c) : Moves P s s' := by
  unfold release at h
  split at h
  · cases h
  · next od hod =>
    obtain rfl := Option.some.inj h
    have hused : Moves P s (s.setDatabase name { od with useCount := od.useCount - 1 }) :=
      .single (.database hod (.used _))
    split_ifs with hclose
    · exact .tail hused (.closed fun c => huse (by rw [uses_of_some hod]; exact hclose.1) c)
    · exact hused

/-- After a database was opened, the client enters it, or gives it up. -/
theorem handleDatabaseOpen_moves {mode : OpenMode} {mvcc : Bool}
    (h : s.handleDatabaseOpen c name mode mvcc = some s') (hwf : UsersWF s) (hbegins : P.begins) :
    ∃ r s₁, s.openDatabase name mode = some (r, s₁) ∧ Moves P s₁ s' := by
  unfold handleDatabaseOpen at h
  split at h
  · cases h
  · next s₁ hopen =>
    refine ⟨_, s₁, hopen, ?_⟩
    rcases openDatabase_eq_some hopen with ⟨-, ho⟩ | ⟨hne, -⟩
    swap
    · exact absurd rfl hne
    have hfail : ∀ r, ((s₁.send c (.databaseOpen r 0)).release name = some s') →
        Moves P s₁ s' := by
      refine fun r hrel => .head (.send c _) (moves_release hrel fun huse d => ?_)
      have huses : (s₁.send c (.databaseOpen r 0)).uses name = s.uses name + 1 := by
        change (s₁.useCount name).getD 0 = _
        rw [ho.useCount]
        rfl
      have hclients : (s₁.send c (.databaseOpen r 0)).clients = s.clients := ho.clients
      have hnames : (s₁.send c (.databaseOpen r 0)).openNames d = s.openNames d :=
        openNames_congr (by rw [hclients])
      rw [huses, Nat.add_sub_cancel] at huse
      rw [hnames]
      exact hwf.forall_not_mem huse d
    split_ifs at h with hmem
    · exact hfail _ h
    · split at h
      · exact hfail _ h
      · next i slots hslots =>
        have hentered : Moves P s₁ ((s₁.setClient c
            { s₁.clients c with openDatabases := slots }).send c (.databaseOpen .success i)) :=
          .head (.entered hmem hslots) (.single (.send c _))
        dsimp only at h
        split_ifs at h
        · obtain ⟨od, od', hod, hod', rfl⟩ := updateDatabase_eq_some_iff.mp h
          obtain rfl := Option.some.inj hod'
          exact .tail hentered (.database hod (.beganMVCC hbegins))
        · obtain rfl := Option.some.inj h
          exact hentered
  · next r s₁ _ hopen =>
    obtain rfl := Option.some.inj h
    exact ⟨r, s₁, hopen, .single (.send c _)⟩

/-- Handling an open request is a sequence of moves. -/
theorem moves_handleDatabaseOpen {mode : OpenMode} {mvcc : Bool}
    (h : s.handleDatabaseOpen c name mode mvcc = some s') (hwf : UsersWF s) (hopens : P.opens)
    (hbegins : P.begins) : Moves P s s' := by
  obtain ⟨r, s₁, hopen, hmoves⟩ := handleDatabaseOpen_moves (P := P) h hwf hbegins
  exact (moves_openDatabase hopen hwf hopens).trans hmoves

/-- When the last use ends, nobody else has the database open. -/
theorem UsersWF.not_mem_of_last (h : UsersWF s) (huse : s.uses name - 1 = 0)
    (hc : name ∈ s.openNames c) {d : ClientId} (hd : d ≠ c) : name ∉ s.openNames d := by
  obtain ⟨n, hn⟩ := Option.isSome_iff_exists.mp (h.isOpen c name hc)
  obtain ⟨users, hu, hlen, husers⟩ := h.users name n hn
  rw [uses, hn, Option.getD_some, ← hlen,
    ← List.length_erase_of_mem ((husers c).mpr hc), List.length_eq_zero_iff] at huse
  intro hd'
  have hmem := (hu.mem_erase_iff (b := c)).mpr ⟨hd, (husers d).mpr hd'⟩
  rw [huse] at hmem
  cases hmem

/-- A client outside of a transaction leaves a database. -/
theorem moves_leaving (h : s.leaving c id name = some s') (hactive : s.active c = false)
    (hname : s.getDatabase c id = some name) : Moves P s s' := by
  unfold leaving at h
  obtain ⟨s₁, hs₁, rfl⟩ := Option.map_eq_some_iff.mp h
  obtain ⟨od, od', hod, hod', rfl⟩ := updateDatabase_eq_some_iff.mp hs₁
  obtain ⟨book, hbook, rfl⟩ := Option.map_eq_some_iff.mp hod'
  have hreleased : Moves P s (s.setDatabase name { od with locks := book }) :=
    .single (.database hod (.released hactive hbook))
  have hqueued : Moves P (s.setDatabase name { od with locks := book }) _ :=
    .single (.database databases_setDatabase_self (change_dropReads c))
  rw [setDatabase_setDatabase] at hqueued
  refine .tail (hreleased.trans hqueued) (.left _ hactive hname fun od₁ hod₁ => ?_)
  rw [databases_setDatabase_self] at hod₁
  obtain rfl := Option.some.inj hod₁
  exact LockBook.nil_of_releaseAll hbook

/-- A client that leaves a database and was the last to use it leaves it to nobody. -/
theorem Left.not_mem_of_last (h : Left c id name s s') (hwf : UsersWF s)
    (huse : s'.uses name - 1 = 0) (d : ClientId) : name ∉ s'.openNames d := by
  by_cases hdc : d = c
  · exact hdc ▸ (List.nodup_cons.mp (h.names.nodup_iff.mp (hwf.nodup c))).1
  · rw [uses, h.useCount] at huse
    rw [openNames_congr (s := s) (by rw [h.clients_of_ne hdc])]
    exact hwf.not_mem_of_last huse (h.names.mem_iff.mpr List.mem_cons_self) hdc

theorem moves_clientCloseDatabase (h : s.clientCloseDatabase c id = some s')
    (hactive : s.active c = false) (hwf : UsersWF s) : Moves P s s' := by
  obtain ⟨name, s₁, hname, hleaving, hrelease⟩ := clientCloseDatabase_eq_some h
  have hmoves : Moves P s s₁ := moves_leaving hleaving hactive hname
  exact hmoves.trans (moves_release hrelease
    fun huse => (left_of_leaving hleaving hname).not_mem_of_last hwf huse)

theorem moves_handleDatabaseClose (h : s.handleDatabaseClose c id = some s') (hwf : UsersWF s) :
    Moves P s s' := by
  unfold handleDatabaseClose at h
  split_ifs at h with hactive
  · obtain rfl := Option.some.inj h
    exact .single (.send c _)
  · split at h
    · obtain rfl := Option.some.inj h
      exact .single (.send c _)
    · obtain ⟨s₁, h₁, rfl⟩ := Option.map_eq_some_iff.mp h
      exact .tail (moves_clientCloseDatabase h₁ (Bool.eq_false_iff.mpr hactive) hwf) (.send c _)

/-- Closing all databases of a client is a sequence of moves. -/
theorem moves_closeAllDatabases (h : s.closeAllDatabases c = some s')
    (hactive : s.active c = false) (hwf : UsersWF s) : Moves P s s' := by
  refine (foldlM_induction (P := fun s' => Moves P s s' ∧ UsersWF s' ∧ s'.active c = false) h
    ⟨.refl, hwf, hactive⟩ fun i _ s₁ s₂ hstep ⟨h1, h2, h3⟩ => ?_).1
  split_ifs at hstep
  · obtain ⟨h4, h5, -⟩ := clientCloseDatabase_calm hstep h2
    exact ⟨h1.trans (moves_clientCloseDatabase hstep h3 h2), h4, h5.hasTransaction.trans h3⟩
  · obtain rfl := Option.some.inj hstep
    exact ⟨h1, h2, h3⟩

/-- After its end nobody is in the transaction. -/
theorem inactive_of_abortTransaction (h : s.abortTransaction c b = some s') (hwf : UsersWF s) :
    s'.active c = false := by
  rw [active, (abortTransaction_clients h hwf).2, Function.update_self]

theorem moves_handleConnectionClosed (h : s.handleConnectionClosed c = some s') (hwf : UsersWF s)
    (hs : Healthy s) (hends : P.ends) : Moves P s s' := by
  unfold handleConnectionClosed at h
  split at h
  · cases h
  · next s₁ habort =>
    obtain ⟨s₂, hclose, rfl⟩ := Option.map_eq_some_iff.mp h
    exact .tail ((moves_abortTransaction habort hwf hs hends).trans (moves_closeAllDatabases hclose
      (inactive_of_abortTransaction habort hwf) (abortTransaction_clients habort hwf).1))
      (.client rfl rfl)

/-! ### Beginning a transaction -/

/-- An entry of a begin message changes modes and gives up locks. -/
theorem moves_setTxnMode {mode : TxnMode} (h : s.setTxnMode c name id mode = some s')
    (hname : s.getDatabase c id = some name) (hactive : s.active c = false) :
    Moves P s s' := by
  unfold setTxnMode at h
  obtain ⟨s₁, h₁, rfl⟩ := Option.map_eq_some_iff.mp h
  split_ifs at h₁
  · obtain ⟨od, od', hod, hod', rfl⟩ := updateDatabase_eq_some_iff.mp h₁
    obtain ⟨book, hbook, rfl⟩ := Option.map_eq_some_iff.mp hod'
    exact .tail (.single (.database hod (.released hactive hbook))) (.mode _ hactive hname)
  · obtain rfl := Option.some.inj h₁
    exact .single (.mode _ hactive hname)

theorem moves_setTxnModes {modes : List (DatabaseId × TxnMode)}
    (h : setTxnModes c modes s = some (b, s')) (hactive : s.active c = false) :
    Moves P s s' := by
  induction modes generalizing s with
  | nil =>
    cases h
    exact .refl
  | cons e es ih =>
    rw [setTxnModes] at h
    split at h
    · cases h
      exact .refl
    · next name hname =>
      split at h
      · cases h
      · next s₁ hs₁ =>
        refine (moves_setTxnMode hs₁ hname hactive).trans (ih h ?_)
        rw [active, (setTxnMode_same hs₁ hname).2, Function.update_self]
        exact hactive

/-- The client is in a transaction, with a priority. -/
def setTransaction (c : ClientId) (priority : Int) (s : Server) : Server :=
  s.setClient c { s.clients c with hasTransaction := true, transactionPriority := priority }

/-- A fold that does not care about what another function changes. -/
theorem foldlM_comm {α σ : Type} {f : σ → α → Option σ} {g : σ → σ}
    (hfg : ∀ s a, f (g s) a = (f s a).map g) (l : List α) (s : σ) :
    l.foldlM f (g s) = (l.foldlM f s).map g := by
  induction l generalizing s with
  | nil => rfl
  | cons a l ih =>
    rw [List.foldlM_cons, List.foldlM_cons, hfg]
    cases f s a with
    | none => rfl
    | some s₁ => exact ih s₁

/-- What a client is told, database by database. -/
theorem foldlM_tellLocks {es : List (DatabaseId × DatabaseName)}
    {r r' : List DatabaseStickyLocks × Server} (h : es.foldlM (tellLocks c) r = some r')
    (hactive : r.2.active c = false) :
    Moves P r.2 r'.2 ∧ r'.2.clients = r.2.clients ∧
      (∀ name od', r'.2.databases name = some od' → (∀ e ∈ es, e.2 ≠ name) →
        r.2.databases name = some od') ∧
      ∀ name od', r'.2.databases name = some od' → (∃ e ∈ es, e.2 = name) →
        od'.locks.revoked c = [] := by
  induction es generalizing r with
  | nil =>
    obtain rfl := Option.some.inj h
    exact ⟨.refl, rfl, fun _ _ h _ => h, fun _ _ _ ⟨e, he, _⟩ => (nomatch he)⟩
  | cons e es ih =>
    rw [List.foldlM_cons] at h
    obtain ⟨r₁, h₁, h₂⟩ := Option.bind_eq_some_iff.mp h
    unfold tellLocks at h₁
    split at h₁
    · cases h₁
    · next od hod =>
      cases h₁
      obtain ⟨h3, h4, h5, h6⟩ := ih h₂ hactive
      refine ⟨.head (.database hod (.told hactive)) h3, h4, fun name od' hod' hne => ?_,
        fun name od' hod' he => ?_⟩
      · have := h5 name od' hod' fun e' he' => hne e' (List.mem_cons_of_mem _ he')
        dsimp only at this
        rwa [databases_setDatabase_of_ne fun heq => hne e List.mem_cons_self heq.symm] at this
      · by_cases hes : ∃ e' ∈ es, e'.2 = name
        · exact h6 name od' hod' hes
        · have hname : e.2 = name := by
            obtain ⟨e', he', hname⟩ := he
            rcases List.mem_cons.mp he' with rfl | he'
            · exact hname
            · exact absurd ⟨e', he', hname⟩ hes
          have hself := h5 name od' hod' fun e' he' heq => hes ⟨e', he', heq⟩
          subst hname
          dsimp only at hself
          rw [databases_setDatabase_self] at hself
          obtain rfl := Option.some.inj hself
          exact Function.update_self _ _ _

/-- Databases begin to read after the transaction is noted. They begin in the same way before. -/
theorem foldlM_beganMVCC {f : Server → DatabaseSlot → Option Server} {priority : Int}
    (hf : ∀ s slot s', f s slot = some s' → s' = s ∨ ∃ name od, s.databases name = some od ∧
      s' = s.setDatabase name { od with database := od.database.beginMVCC })
    (slots : List DatabaseSlot) (h : slots.foldlM f (setTransaction c priority s) = some s')
    (hbegins : P.begins) :
    ∃ s₁, s' = setTransaction c priority s₁ ∧ Moves P s s₁ ∧ s₁.clients = s.clients := by
  induction slots generalizing s with
  | nil => exact ⟨s, (Option.some.inj h).symm, .refl, rfl⟩
  | cons slot slots ih =>
    rw [List.foldlM_cons] at h
    obtain ⟨s₂, hs₂, hrest⟩ := Option.bind_eq_some_iff.mp h
    rcases hf _ _ _ hs₂ with rfl | ⟨name, od, hod, rfl⟩
    · exact ih hrest
    · obtain ⟨s₁, hs₁, hmoves, hclients⟩ :=
        ih (s := s.setDatabase name { od with database := od.database.beginMVCC }) hrest
      exact ⟨s₁, hs₁, .head (.database hod (.beganMVCC hbegins)) hmoves, hclients⟩

/-- The client enters its transaction, and the kept snapshots it reads from. -/
theorem clientBeginTransaction_eq_some {priority : Int}
    (h : s.clientBeginTransaction c priority = some s') (hbegins : P.begins) :
    ∃ s₁, s' = setTransaction c priority s₁ ∧ Moves P s s₁ ∧ s₁.clients = s.clients := by
  refine foldlM_beganMVCC (fun s slot s' hs' => ?_) _ h hbegins
  split at hs'
  · obtain ⟨od, od', hod, hod', rfl⟩ := updateDatabase_eq_some_iff.mp hs'
    obtain rfl := Option.some.inj hod'
    exact Or.inr ⟨_, od, hod, rfl⟩
  · exact Or.inl (Option.some.inj hs').symm

/-- Handling a begin message is a sequence of moves. -/
theorem moves_handleTransactionBegin {priority : Int} {modes : List (DatabaseId × TxnMode)}
    (h : s.handleTransactionBegin c priority modes = some s') (hbegins : P.begins) : Moves P s s' := by
  unfold handleTransactionBegin at h
  split_ifs at h with hactive
  · obtain rfl := Option.some.inj h
    exact .single (.send c _)
  replace hactive := Bool.eq_false_iff.mpr hactive
  split at h
  · cases h
  · next s₁ hs₁ =>
    obtain rfl := Option.some.inj h
    exact .tail (moves_setTxnModes hs₁ hactive) (.send c _)
  · next s₁ hs₁ =>
    have hmoves : Moves P s s₁ := moves_setTxnModes hs₁ hactive
    have hactive₁ : s₁.active c = false :=
      (setTxnModes_begun hs₁).2.trans hactive
    split at h
    · cases h
    · next s₂ hs₂ =>
      obtain ⟨⟨locks, s₃⟩, hs₃, rfl⟩ := Option.map_eq_some_iff.mp h
      refine .trans hmoves (.tail ?_ (.send c _))
      obtain ⟨s₂, rfl, hmoves₂, hclients⟩ := clientBeginTransaction_eq_some (P := P) hs₂ hbegins
      -- telling the sticky locks and setting the transaction can be exchanged
      let g (r : List DatabaseStickyLocks × Server) : List DatabaseStickyLocks × Server :=
        (r.1, setTransaction c priority r.2)
      have hg : ∀ r e, tellLocks c (g r) e = (tellLocks c r e).map g := fun r e => by
        unfold tellLocks
        have hdb : (g r).2.databases e.2 = r.2.databases e.2 := rfl
        rw [hdb]
        cases r.2.databases e.2 <;> rfl
      have hopen : ((setTransaction c priority s₂).clients c).openDatabases =
          (s₂.clients c).openDatabases := by
        rw [setTransaction, clients_setClient_self]
      unfold constructTransactionBeginResponse at hs₃
      rw [hopen] at hs₃
      replace hs₃ : List.foldlM (tellLocks c) (g ([], s₂)) _ = _ := hs₃
      rw [foldlM_comm hg] at hs₃
      obtain ⟨⟨locks', s₄⟩, htell, heq⟩ := Option.map_eq_some_iff.mp hs₃
      cases heq
      have hactive₂ : s₂.active c = false := by rw [active, hclients]; exact hactive₁
      obtain ⟨hmoves₃, hclients₃, -, hrevoked⟩ := foldlM_tellLocks htell hactive₂
      dsimp only at hmoves₃ hclients₃ hrevoked
      refine .tail (hmoves₂.trans hmoves₃) (.begun priority ?_ fun name hname od hod => ?_)
      · rw [active, hclients₃]
        exact hactive₂
      · refine hrevoked name od hod ?_
        obtain ⟨slot, hslot, hslotname⟩ := List.mem_filterMap.mp hname
        rw [hclients₃] at hslot
        obtain ⟨i, hi, hget⟩ := List.mem_iff_getElem.mp hslot
        refine ⟨(i, name), List.mem_filterMap.mpr ⟨(slot, i), ?_, ?_⟩, rfl⟩
        · exact List.mem_zipIdx_iff_getElem?.mpr (by rw [List.getElem?_eq_getElem hi, hget])
        · rw [hslotname]
          rfl

/-! ### Committing -/

/-- A client knows a database by one id. -/
theorem UsersWF.getDatabase_inj (h : UsersWF s) {i j : DatabaseId}
    (hi : s.getDatabase c i = some name) (hj : s.getDatabase c j = some name) : i = j := by
  obtain ⟨slot, hslot, hname⟩ := getDatabase_eq_some_iff.mp hi
  obtain ⟨slot', hslot', hname'⟩ := getDatabase_eq_some_iff.mp hj
  by_contra hne
  have hnodup := h.nodup c
  rw [openNames] at hnodup
  -- two entries with the same name would be two occurrences of it
  wlog hlt : i < j generalizing i j slot slot'
  · exact this hj hi slot' hslot' hname' slot hslot hname (Ne.symm hne)
      (lt_of_le_of_ne (not_lt.mp hlt) (Ne.symm hne))
  obtain ⟨hi', hget⟩ := List.getElem?_eq_some_iff.mp hslot
  rw [← List.take_append_drop (i + 1) (s.clients c).openDatabases, List.filterMap_append] at hnodup
  refine @(List.nodup_append'.mp hnodup).2.2 name ?_ ?_
  · refine List.mem_filterMap.mpr ⟨slot, ?_, hname⟩
    rw [← hget]
    exact List.mem_take_iff_getElem.mpr ⟨i, by omega, rfl⟩
  · refine List.mem_filterMap.mpr ⟨slot', ?_, hname'⟩
    refine List.mem_of_getElem? (i := j - (i + 1)) ?_
    rw [List.getElem?_drop, ← hslot', Nat.add_sub_cancel' (Nat.succ_le_of_lt hlt)]

/-- A group of messages with the locks it grants, which is validated and not yet applied. -/
def Pends (c : ClientId) (s : Server) (p : (DatabaseId × List TransactionCommit) × List BlobLocation) :
    Prop :=
  ∃ name od, s.getDatabase c p.1.1 = some name ∧ s.databases name = some od ∧
    ∃ (db : Database) (v : Tree 3) (mvcc : Bool), db.Inv v ∧
      db.validateCommitMessages (od.locks.ownsWriteLock c) mvcc p.1.2 =
        some (.success, od.database, p.2)

/-- What is still to be applied to other databases is as valid as before. -/
theorem Pends.setDatabase {p : (DatabaseId × List TransactionCommit) × List BlobLocation}
    (h : Pends c s p) (hwf : UsersWF s) (hname : s.getDatabase c id = some name)
    (hne : p.1.1 ≠ id) : Pends c (s.setDatabase name od) p := by
  obtain ⟨name', od', hname', hod', hp⟩ := h
  have hne' : name' ≠ name := fun heq => hne (hwf.getDatabase_inj hname' (by rw [heq, hname]))
  exact ⟨name', od', hname', by rw [databases_setDatabase_of_ne hne', hod'], hp⟩

/-- After validation all groups are validated. -/
theorem moves_validateCommitMessages {gs : List (DatabaseId × List TransactionCommit)}
    {r : TransactionCommitResponse.Result} {ls : List (DatabaseId × List BlobLocation)}
    (h : validateCommitMessages c gs s = some (r, ls, s')) (hwf : UsersWF s) (hs : Healthy s)
    (hn : (gs.map Prod.fst).Nodup) : Moves P s s' ∧
      (∀ name od, s.databases name = some od → (∀ g ∈ gs, s.getDatabase c g.1 ≠ some name) →
        s'.databases name = some od) ∧
      (r = .success → ∀ p ∈ gs.zip (ls.map Prod.snd), Pends c s' p) := by
  induction gs generalizing s ls with
  | nil =>
    cases h
    exact ⟨.refl, fun _ _ h _ => h, by rintro _ _ ⟨⟩⟩
  | cons g gs ih =>
    obtain ⟨hg, hn⟩ := List.nodup_cons.mp hn
    rw [validateCommitMessages] at h
    split at h
    · cases h
      exact ⟨.refl, fun _ _ h _ => h, by rintro ⟨⟩⟩
    · next name hname =>
      split at h
      · cases h
      · next od hod =>
        obtain ⟨v, hinv⟩ := hs.exists_inv hod
        -- validating looks things up in one database and leaves the others
        have hkeep : ∀ db name' od', s.databases name' = some od' → s.getDatabase c g.1 ≠ some name' →
            (s.setDatabase name { od with database := db }).databases name' = some od' :=
          fun db name' od' hod' hne => by
            have hne' : name' ≠ name := fun heq => hne (by rw [heq, hname])
            rw [databases_setDatabase_of_ne hne', hod']
        split at h
        · cases h
        · next db ls₁ hvalid =>
          obtain ⟨⟨r', ls', s₁⟩, hr, heq⟩ := Option.map_eq_some_iff.mp h
          cases heq
          have h₁ : Moves P s (s.setDatabase name { od with database := db }) :=
            moves_looked (b := false) hod rfl (Database.looked_of_validate hvalid)
          have hwf₁ : UsersWF (s.setDatabase name { od with database := db }) := by
            refine (sameDatabases_setDatabase hod ?_ ?_).usersWF hwf <;> rfl
          obtain ⟨h2, h3, h4⟩ := ih hr hwf₁ (h₁.healthy hs) hn
          refine ⟨h₁.trans h2, fun name' od' hod' hne => ?_, fun hsuccess p hp => ?_⟩
          · exact h3 name' od' (hkeep db name' od' hod' (hne g List.mem_cons_self))
              fun g' hg' => hne g' (List.mem_cons_of_mem _ hg')
          · rw [List.map_cons, List.zip_cons_cons] at hp
            rcases List.mem_cons.mp hp with rfl | hp
            · have hclients := (validateCommitMessages_same hr).2
              -- no later group is for the same database
              refine ⟨name, { od with database := db }, ?_, ?_, od.database, v, _, hinv, hvalid⟩
              · rw [getDatabase, hclients]
                exact hname
              · refine h3 name _ databases_setDatabase_self fun g' hg' hname' => hg ?_
                exact hwf.getDatabase_inj hname hname' ▸ List.mem_map_of_mem hg'
            · exact h4 hsuccess p hp
        · next r' db ls₁ hne' hvalid =>
          cases h
          exact ⟨moves_looked (b := false) hod rfl (Database.looked_of_validate hvalid),
            fun name' od' hod' hne => hkeep db name' od' hod' (hne g List.mem_cons_self),
            fun hr => absurd hr hne'⟩

/-- What a client commits to a database may be committed to its tree. -/
def PermitsCommit (s : Server) (commits : Tree 3 → List BlobData → Prop) (c : ClientId)
    (g : DatabaseId × List TransactionCommit) : Prop :=
  ∀ name ∈ s.getDatabase c g.1, ∀ t ∈ s.tree name, commits t (g.2.flatMap TransactionCommit.blobs)

/-- What a client commits with its messages may be committed to the databases, if the messages are
accepted. -/
def PermitsCommits (s : Server) (commits : Tree 3 → List BlobData → Prop) (c : ClientId)
    (ms : List TransactionCommit) : Prop :=
  ∀ gs ∈ groupByDatabase [] ms, ∀ ls s', s.validateCommitMessages c gs = some (.success, ls, s') →
    ∀ g ∈ gs, s.PermitsCommit commits c g

/-- Validation changes no locks, and tells the locks of all groups. -/
theorem validateCommitMessages_locks {gs : List (DatabaseId × List TransactionCommit)}
    {r : TransactionCommitResponse.Result} {ls : List (DatabaseId × List BlobLocation)}
    (h : validateCommitMessages c gs s = some (r, ls, s')) :
    (∀ name, s'.locks name = s.locks name) ∧
      (r = .success → ∀ p ∈ gs.zip (ls.map Prod.snd), (p.1.1, p.2) ∈ ls) := by
  induction gs generalizing s ls with
  | nil =>
    cases h
    exact ⟨fun _ => rfl, by rintro _ _ ⟨⟩⟩
  | cons g gs ih =>
    rw [validateCommitMessages] at h
    split at h
    · cases h
      exact ⟨fun _ => rfl, by rintro ⟨⟩⟩
    · next name hname =>
      split at h
      · cases h
      · next od hod =>
        have hlocks : ∀ db name', (s.setDatabase name { od with database := db }).locks name' =
            s.locks name' := fun db name' => by
          by_cases hne : name' = name
          · rw [hne, locks_setDatabase_self, locks_of_some hod]
          · exact locks_setDatabase_of_ne hne
        split at h
        · cases h
        · next db ls₁ hvalid =>
          obtain ⟨⟨r', ls', s₁⟩, hr, heq⟩ := Option.map_eq_some_iff.mp h
          cases heq
          obtain ⟨h1, h2⟩ := ih hr
          refine ⟨fun name' => (h1 name').trans (hlocks db name'), fun hsuccess p hp => ?_⟩
          rw [List.map_cons, List.zip_cons_cons] at hp
          rcases List.mem_cons.mp hp with rfl | hp
          · exact List.mem_cons_self
          · exact List.mem_cons_of_mem _ (h2 hsuccess p hp)
        · next r' db ls₁ hne' hvalid =>
          cases h
          exact ⟨hlocks db, fun hr => absurd hr hne'⟩

/-- Validation keeps the trees. -/
theorem tree_validateCommitMessages {gs : List (DatabaseId × List TransactionCommit)}
    {r : TransactionCommitResponse.Result} {ls : List (DatabaseId × List BlobLocation)}
    (h : validateCommitMessages c gs s = some (r, ls, s')) (hs : Healthy s) (name : DatabaseName) :
    s'.tree name = s.tree name := by
  induction gs generalizing s ls with
  | nil =>
    cases h
    rfl
  | cons g gs ih =>
    rw [validateCommitMessages] at h
    split at h
    · cases h
      rfl
    · next name₁ hname =>
      split at h
      · cases h
      · next od hod =>
        have htree : ∀ db, Database.Looked od.database.snapshot od.database db →
            (s.setDatabase name₁ { od with database := db }).tree name = s.tree name ∧
              Healthy (s.setDatabase name₁ { od with database := db }) := fun db hl =>
          ⟨(Steady.looked (b := false) hs hod rfl hl).tree name,
            Moves.healthy (P := .all) (moves_looked (b := false) hod rfl hl) hs⟩
        split at h
        · cases h
        · next db ls₁ hvalid =>
          obtain ⟨⟨r', ls', s₁⟩, hr, heq⟩ := Option.map_eq_some_iff.mp h
          cases heq
          obtain ⟨h1, h2⟩ := htree db (Database.looked_of_validate hvalid)
          exact (ih hr h2).trans h1
        · next r' db ls₁ hne' hvalid =>
          cases h
          exact (htree db (Database.looked_of_validate hvalid)).1

/-- Applying the groups of a commit, one database after the other. -/
theorem moves_commitDatabases {σ : DatabaseName → Schedule}
    {gs : List ((DatabaseId × List TransactionCommit) × List BlobLocation)}
    {commits : List (DatabaseId × CommitId)} (h : commitDatabases c σ gs s = some (commits, s'))
    (hactive : s.active c = true) (hwf : UsersWF s) (hn : (gs.map fun p => p.1.1).Nodup)
    (hp : ∀ p ∈ gs, Pends c s p)
    (hpermit : ∀ p ∈ gs, s.PermitsCommit P.commits c p.1) : Moves P s s' := by
  induction gs generalizing s commits with
  | nil =>
    cases h
    exact .refl
  | cons p gs ih =>
    obtain ⟨g, ls⟩ := p
    obtain ⟨hg, hn⟩ := List.nodup_cons.mp hn
    rw [commitDatabases] at h
    split at h
    · cases h
    · next name hname =>
      split at h
      · cases h
      · next od hod =>
        split at h
        · cases h
        · next od' hod' =>
          obtain ⟨⟨commits', s₁⟩, hr, heq⟩ := Option.map_eq_some_iff.mp h
          cases heq
          obtain ⟨hu, hq⟩ := commitDatabase_keeps hod'
          obtain ⟨name₁, od₁, hname₁, hod₁, db, v, mvcc, hinv, hvalid⟩ := hp _ List.mem_cons_self
          obtain rfl := Option.some.inj (hname.symm.trans hname₁)
          obtain rfl := Option.some.inj (hod.symm.trans hod₁)
          have htree : od.database.tree od.database.snapshot = some v :=
            (((Database.looked_of_validate hvalid).loads hinv.wf hinv.path).inv hinv).view
          have hcommitted : Moves P s (s.setDatabase name od') :=
            .single (.database hod (.committed
              ⟨hactive, mem_openNames_of_getDatabase hname, db, v, mvcc, g.2, hinv, rfl, hvalid⟩ htree
              (hpermit _ List.mem_cons_self name hname v ((tree_of_some hod).trans htree)) hod'))
          have hother : ∀ p ∈ gs, p.1.1 ≠ g.1 := fun p hp' heq => hg (List.mem_map.mpr ⟨p, hp', heq⟩)
          refine hcommitted.trans (ih hr hactive ((sameDatabases_setDatabase hod hu hq).usersWF hwf)
            hn (fun p hp' => ?_) fun p hp' name' hname' t ht => ?_)
          · exact (hp p (List.mem_cons_of_mem _ hp')).setDatabase hwf hname (hother p hp')
          · have hne : name' ≠ name := fun heq =>
              hother p hp' (hwf.getDatabase_inj hname' (heq ▸ hname))
            rw [tree_setDatabase_of_ne hne] at ht
            exact hpermit p (List.mem_cons_of_mem _ hp') name' hname' t ht

/-- The entries of an accepted commit an event finishes are orderly, database by database. -/
def CommitsOrderly (orderly : Tree 3 → List BlobData → Prop) (s : Server) : Event → Prop
  | .transactionCommit c m _ =>
    let ms := (s.clients c).commitMessages ++ [m]
    s.active c = true → m.hasFollowMessage = false →
      (s.setClient c { s.clients c with commitMessages := ms }).PermitsCommits orderly c ms
  | _ => True

theorem map_fst_zip_sublist {α β : Type} (as : List α) (bs : List β) :
    List.Sublist ((as.zip bs).map Prod.fst) as := by
  induction as generalizing bs with
  | nil => exact List.nil_sublist _
  | cons a as ih =>
    cases bs with
    | nil => exact List.nil_sublist _
    | cons b bs => exact (ih bs).cons_cons a

/-- What applying the groups of a commit leaves as it is. -/
structure Applies (c : ClientId) (s s' : Server) : Prop where
  clients : s'.clients = s.clients
  queue : ∀ name, s'.queue name = s.queue name
  useCount : ∀ name, s'.useCount name = s.useCount name
  databases : ∀ name, name ∉ s.openNames c → s'.databases name = s.databases name

theorem Applies.usersWF (h : Applies c s s') (hwf : UsersWF s) : UsersWF s' :=
  hwf.of_sublist (fun d => openNames_congr (by rw [h.clients])) (fun name => Or.inl (h.useCount name))
    fun name => by rw [h.queue]

/-- Applying a commit changes only databases the client has open. -/
theorem applies_commitDatabases {σ : DatabaseName → Schedule}
    {gs : List ((DatabaseId × List TransactionCommit) × List BlobLocation)}
    {commits : List (DatabaseId × CommitId)} (h : commitDatabases c σ gs s = some (commits, s')) :
    Applies c s s' := by
  obtain ⟨hsame, hclients⟩ := commitDatabases_same h
  refine ⟨hclients, hsame.queue, hsame.useCount, fun name hn => ?_⟩
  clear hsame hclients
  induction gs generalizing s commits with
  | nil =>
    cases h
    rfl
  | cons p gs ih =>
    obtain ⟨g, ls⟩ := p
    rw [commitDatabases] at h
    split at h
    · cases h
    · next name₁ hname =>
      split at h
      · cases h
      · split at h
        · cases h
        · next od' hod' =>
          obtain ⟨⟨commits', s₁⟩, hr, heq⟩ := Option.map_eq_some_iff.mp h
          cases heq
          have hne : name ≠ name₁ := fun heq => hn (heq ▸ mem_openNames_of_getDatabase hname)
          rw [ih hr hn, databases_setDatabase_of_ne hne]

variable (P) in
/-- The end of a commit: the messages are validated, applied or not, and the transaction ends. -/
theorem finishCommit_moves {σ : DatabaseName → Schedule} {ms : List TransactionCommit}
    (h : s.finishCommit c σ ms = some s') (hactive : s.active c = true) (hwf : UsersWF s)
    (hs : Healthy s) (hpermit : s.PermitsCommits P.commits c ms) :
    ∃ s₁ s₂ s₃ b, Moves .noBegins s s₁ ∧ UsersWF s₁ ∧ s₁.active c = true ∧
      Moves P s₁ s₂ ∧ Applies c s₁ s₂ ∧ Moves .noBegins s₂ s₃ ∧
      s₃.clients = s₂.clients ∧ s₃.databases = s₂.databases ∧
      s₃.abortTransaction c b = some s' := by
  unfold finishCommit at h
  dsimp only at h
  -- a commit that is rejected applies nothing
  have hreject : ∀ (s₀ : Server) (r : TransactionCommitResponse.Result),
      Moves .noBegins s s₀ → UsersWF s₀ → s₀.active c = true →
      ((s₀.send c (.transactionCommit r [])).setClient c
        { (s₀.send c (.transactionCommit r [])).clients c with commitMessages := [] }
          ).abortTransaction c true = some s' →
      ∃ s₁ s₂ s₃ b, Moves .noBegins s s₁ ∧ UsersWF s₁ ∧ s₁.active c = true ∧
        Moves P s₁ s₂ ∧ Applies c s₁ s₂ ∧ Moves .noBegins s₂ s₃ ∧
        s₃.clients = s₂.clients ∧ s₃.databases = s₂.databases ∧
        s₃.abortTransaction c b = some s' := by
    intro s₀ r hmoves hwf₀ hactive₀ habort
    have hwf₁ : UsersWF (s₀.send c (.transactionCommit r [])) := hwf₀.send _
    refine ⟨_, _, _, true, ?_, ?_, ?_, .refl, ⟨rfl, fun _ => rfl, fun _ => rfl, fun _ _ => rfl⟩,
      .refl, rfl, rfl, habort⟩
    · exact .tail (.tail hmoves (.send c _)) (.client rfl rfl)
    · exact hwf₁.setClient rfl
    · rw [active, clients_setClient_self]
      exact hactive₀
  split at h
  · exact hreject s _ .refl hwf hactive h
  · next gs hgs =>
    have hgroups : Groups ([] ++ ms) gs := groups_groupByDatabase groups_nil hgs
    split at h
    · cases h
    · next ls s₁ hvalid =>
      obtain ⟨h1, -, h3⟩ : Moves .noBegins s s₁ ∧ _ ∧ _ :=
        moves_validateCommitMessages hvalid hwf hs hgroups.nodup
      obtain ⟨hsame, hclients⟩ := validateCommitMessages_same hvalid
      split at h
      · cases h
      · next commits s₂ hcommit =>
        set s₁' := s₁.setClient c { s₁.clients c with commitMessages := [] } with hs₁'
        have hgetDatabase : ∀ i, s₁'.getDatabase c i = s₁.getDatabase c i := fun i => by
          rw [hs₁', getDatabase, clients_setClient_self, getDatabase]
        have hsub : List.Sublist ((gs.zip (ls.map Prod.snd)).map fun p => p.1.1)
            (gs.map Prod.fst) := by
          have hzip := (map_fst_zip_sublist gs (ls.map Prod.snd)).map Prod.fst
          rwa [List.map_map] at hzip
        have hactive₁ : s₁'.active c = true := by
          rw [hs₁', active, clients_setClient_self, hclients]
          exact hactive
        have hwf₁ : UsersWF s₁' := (hsame.usersWF hwf).setClient rfl
        have hcommits : Moves P s₁' s₂ := by
          refine moves_commitDatabases hcommit hactive₁ hwf₁ (hgroups.nodup.sublist hsub)
            (fun p hp => ?_) fun p hp name hname t ht => ?_
          · obtain ⟨name, od, hname, hod, hrest⟩ := h3 rfl p hp
            exact ⟨name, od, (hgetDatabase _).trans hname, hod, hrest⟩
          · refine hpermit gs hgs ls s₁ hvalid p.1 ((map_fst_zip_sublist _ _).subset (List.mem_map_of_mem hp)) name
              ?_ t ?_
            · rw [hgetDatabase, getDatabase, hclients] at hname
              exact hname
            · rw [← tree_validateCommitMessages hvalid hs]
              exact ht
        exact ⟨s₁', s₂, _, false, .tail h1 (.client rfl rfl), hwf₁, hactive₁, hcommits,
          applies_commitDatabases hcommit, .single (.send c _), rfl, rfl, h⟩
    · next r ls s₁ hne hvalid =>
      obtain ⟨hsame, hclients⟩ := validateCommitMessages_same hvalid
      refine hreject s₁ r (moves_validateCommitMessages hvalid hwf hs hgroups.nodup).1
        (hsame.usersWF hwf) ?_ h
      rw [active, hclients]
      exact hactive

/-- The end of a commit is a sequence of moves; its entries are committed only if all are valid. -/
theorem moves_finishCommit {σ : DatabaseName → Schedule} {ms : List TransactionCommit}
    (h : s.finishCommit c σ ms = some s') (hactive : s.active c = true) (hwf : UsersWF s)
    (hs : Healthy s) (hends : P.ends)
    (hpermit : s.PermitsCommits P.commits c ms) : Moves P s s' := by
  obtain ⟨s₁, s₂, s₃, b, h1, hwf₁, -, h2, happlies, h3, hclients, hdatabases, habort⟩ :=
    finishCommit_moves P h hactive hwf hs hpermit
  have hall : Moves P s s₃ :=
    ((h1.mono (Permit.noBegins_le hends)).trans h2).trans (h3.mono (Permit.noBegins_le hends))
  have hwf₃ : UsersWF s₃ := (happlies.usersWF hwf₁).of_sublist
    (fun d => openNames_congr (by rw [hclients]))
    (fun name => Or.inl (useCount_congr (congrFun hdatabases name)))
    fun name => by rw [queue_congr (congrFun hdatabases name)]
  exact hall.trans (moves_abortTransaction habort hwf₃ (hall.healthy hs) hends)

/-- A message of a commit changes nothing but its client, or it finishes the commit of the client. -/
theorem handleTransactionCommit_cases {orderly : Tree 3 → List BlobData → Prop}
    {m : TransactionCommit} {σ : DatabaseName → Schedule}
    (h : s.handleTransactionCommit c m σ = some s')
    (horderly : s.CommitsOrderly orderly (.transactionCommit c m σ)) :
    ((∀ P, Move P s s') ∧ s'.databases = s.databases) ∨
      ∃ s₀ ms, (∀ P, Move P s s₀) ∧ s₀.databases = s.databases ∧ (UsersWF s → UsersWF s₀) ∧
        s₀.active c = true ∧
        s₀.PermitsCommits orderly c ms ∧ s₀.finishCommit c σ ms = some s' := by
  unfold handleTransactionCommit at h
  split_ifs at h with hactive hfollow
  · obtain rfl := Option.some.inj h
    exact Or.inl ⟨fun _ => .send c _, rfl⟩
  · obtain rfl := Option.some.inj h
    exact Or.inl ⟨fun _ => .client rfl rfl, rfl⟩
  · rw [Bool.not_eq_true'] at hactive
    refine Or.inr ⟨s.setClient c { s.clients c with
      commitMessages := (s.clients c).commitMessages ++ [m] }, _, fun _ => .client rfl rfl, rfl,
      fun hwf => hwf.setClient rfl, ?_,
      horderly (Bool.of_not_eq_false hactive) (Bool.eq_false_iff.mpr hfollow), h⟩
    rw [active, clients_setClient_self]
    exact Bool.of_not_eq_false hactive

/-! ### Events -/

/-- The event may open a database. -/
def Event.Opens : Event → Prop
  | .databaseOpen _ _ _ _ => True
  | _ => False

/-- Readers may begin to use a kept snapshot by the event. -/
def Event.Begins : Event → Prop
  | .databaseOpen _ _ _ _ | .transactionBegin _ _ _ => True
  | _ => False

/-- Transactions may end by the event, and locks be granted. -/
def Event.Ends : Event → Prop
  | .connectionClosed _ | .blobsRead _ | .transactionAbort _ | .transactionCommit _ _ _ => True
  | _ => False

/-- A step is a sequence of moves. -/
theorem Step.moves {e : Event} (h : Step s e s') (hwf : UsersWF s) (hs : Healthy s)
    (hends : e.Ends → P.ends) (hopens : e.Opens → P.opens) (hbegins : e.Begins → P.begins)
    (horderly : s.CommitsOrderly P.commits e) :
    Moves P s s' := by
  obtain ⟨-, h⟩ := h
  cases e with
  | connectionOpened d =>
    rw [handle] at h
    obtain rfl := Option.some.inj h
    exact .single (.client rfl rfl)
  | connectionClosed d => exact moves_handleConnectionClosed h hwf hs (hends trivial)
  | databaseOpen d name mode mvcc => exact moves_handleDatabaseOpen h hwf (hopens trivial) (hbegins trivial)
  | databaseClose d id => exact moves_handleDatabaseClose h hwf
  | blobsRead m => exact moves_handleBlobsRead h hwf hs (hends trivial)
  | transactionBegin d priority modes => exact moves_handleTransactionBegin h (hbegins trivial)
  | transactionAbort d => exact moves_abortTransaction h hwf hs (hends trivial)
  | transactionCommit d m σ =>
    change s.handleTransactionCommit d m σ = some s' at h
    unfold handleTransactionCommit at h
    split_ifs at h with hactive hfollow
    · obtain rfl := Option.some.inj h
      exact .single (.send d _)
    · obtain rfl := Option.some.inj h
      exact .single (.client rfl rfl)
    · rw [Bool.not_eq_true'] at hactive
      have hactive := Bool.of_not_eq_false hactive
      have hclient : Moves P s (s.setClient d
          { s.clients d with commitMessages := (s.clients d).commitMessages ++ [m] }) :=
        .single (.client rfl rfl)
      refine hclient.trans (moves_finishCommit h ?_ (hwf.setClient rfl) (hclient.healthy hs)
        (hends trivial) (horderly hactive (Bool.eq_false_iff.mpr hfollow)))
      rw [active, clients_setClient_self]
      exact hactive
  | lockTimeouts name due => exact moves_checkForLockTimeouts h
  | delayedClose name =>
    rw [handle] at h
    split at h
    · obtain rfl := Option.some.inj h
      exact .refl
    · next od hod =>
      obtain rfl := Option.some.inj h
      split_ifs with hzero
      · exact .single (.closed (hwf.forall_not_mem ((uses_of_some hod).trans hzero)))
      · exact .refl

end Server

end BlobsDb
