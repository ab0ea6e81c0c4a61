import BlobsDb.Server.Deadlocks
import BlobsDb.Server.Fitting
import BlobsDb.Server.NextFreeIds
import BlobsDb.Server.Snapshots
import BlobsDb.Server.Waking

/-!
# Reads come to an end

What ends a read may have to try many others: the locks a transaction gives up may free the reads
that wait, and so do those of the victims of a deadlock, one after the other. All of this comes to an
end if the answers fit (`Ready.exists_handleBlobsRead`, `Ending.exists_abortTransaction`), and a read
that would get its locks comes to an end only if its answer fits
(`Ready.exists_handleBlobsRead_iff`). With what is known about runs, each read is then answered once
and completely, unless its client withdraws it or it waits (`Converses.answered_once`).
-/

namespace BlobsDb

namespace Server

variable {s s' s₁ : Server} {c : ClientId} {name : DatabaseName} {m q : BlobsRead} {b : Bool}

/-- Whether a read is answered from the snapshot that is kept for readers. -/
def readsKept (s : Server) (m : BlobsRead) : Bool :=
  !m.isDirtyRead && s.isDatabaseMVCC m.clientId m.databaseId

/-- The answer to a read fits, should it be given now: in the active snapshot, or in the one that is
kept for readers, which also has to be there still. -/
structure AnswerFits (s : Server) (m : BlobsRead) : Prop where
  active : s.readsKept m = false → ∀ name t, s.getDatabase m.clientId m.databaseId = some name →
    s.tree name = some t → t.AnswerFits m
  kept : s.readsKept m = true → s.active m.clientId = true → m.needsWriteLock = false →
    ∀ name od, s.getDatabase m.clientId m.databaseId = some name →
    s.databases name = some od →
    ∃ p t k, od.database.mvccSnapshot = some p ∧ od.database.Shows p t k ∧ t.AnswerFits m

/-- The answers to the reads that wait fit. -/
def WaitingFit (s : Server) : Prop := ∀ name, ∀ q ∈ s.queue name, s.AnswerFits q

/-- A read of the active snapshot does not care for what other clients do, and for locks. -/
theorem AnswerFits.congr (h : s.AnswerFits m) (hkept : s.readsKept m = false)
    (hclients : (s'.clients m.clientId).openDatabases = (s.clients m.clientId).openDatabases)
    (htree : ∀ name, s'.tree name = s.tree name) : s'.readsKept m = false ∧ s'.AnswerFits m := by
  have hkept' : s'.readsKept m = false := by
    rw [← hkept, readsKept, readsKept, isDatabaseMVCC, hclients, isDatabaseMVCC]
  refine ⟨hkept', fun _ name t hname ht => ?_, fun h => ?_⟩
  · refine h.active hkept name t ?_ ((htree name).symm.trans ht)
    rwa [getDatabase, ← hclients]
  · rw [hkept'] at h
    cases h

/-! ### Trying a read -/

/-- A database that a client knows is open. -/
theorem UsersWF.exists_database (h : UsersWF s) {id : DatabaseId}
    (hname : s.getDatabase c id = some name) : ∃ od, s.databases name = some od := by
  obtain ⟨n, hn⟩ := Option.isSome_iff_exists.mp (h.isOpen _ name (mem_openNames_of_getDatabase hname))
  obtain ⟨od, hod, -⟩ := Option.map_eq_some_iff.mp hn
  exact ⟨od, hod⟩

/-- The snapshot a read is answered from can be seen, and the answer fits. -/
theorem AnswerFits.exists_shows (h : s.AnswerFits m) (hs : Healthy s) {od : OpenDatabase}
    (hname : s.getDatabase m.clientId m.databaseId = some name)
    (hod : s.databases name = some od) (hactive : m.isDirtyRead = true ∨ s.active m.clientId = true)
    (hwrite : s.readsKept m = true → m.needsWriteLock = false) :
    ∃ p t k, od.database.snapshotFor (s.readsKept m) = some p ∧ od.database.Shows p t k ∧
      t.AnswerFits m := by
  cases hkept : s.readsKept m with
  | false =>
    obtain ⟨v, hinv⟩ := hs.exists_inv hod
    exact ⟨_, v, _, rfl, hinv.shows, h.active hkept name v hname ((tree_of_some hod).trans hinv.view)⟩
  | true =>
    have hdirty : m.isDirtyRead = false := by
      rw [readsKept, Bool.and_eq_true, Bool.not_eq_true'] at hkept
      exact hkept.1
    exact h.kept hkept (hactive.resolve_left (by simp [hdirty])) (hwrite hkept) name od hname hod

/-- A read is answered, or has to wait. -/
theorem exists_tryHandleBlobsRead (hwf : UsersWF s) (hs : Healthy s) (hfits : s.AnswerFits m) :
    ∃ b s', s.tryHandleBlobsRead m = some (b, s') := by
  unfold tryHandleBlobsRead
  dsimp only
  cases hname : s.getDatabase m.clientId m.databaseId with
  | none => exact ⟨_, _, rfl⟩
  | some name =>
    dsimp only
    by_cases hactive : (!m.isDirtyRead && !s.active m.clientId) = true
    · exact ⟨_, _, if_pos hactive⟩
    rw [if_neg hactive]
    by_cases hwrite : (s.readsKept m && m.needsWriteLock) = true
    · exact ⟨_, _, if_pos hwrite⟩
    rw [readsKept] at hwrite
    rw [if_neg hwrite]
    obtain ⟨od, hod⟩ := hwf.exists_database hname
    change ¬(s.readsKept m && m.needsWriteLock) = true at hwrite
    obtain ⟨p, t, k, hp, hshows, hanswer⟩ := hfits.exists_shows hs hname hod
      (by cases hd : m.isDirtyRead <;> simp_all) (fun hk => by simpa [hk] using hwrite)
    obtain ⟨db, hexist⟩ := hshows.ensureRequestedBlobsExist_eq m.lockMode m.blobs
    change od.database.snapshotFor (!m.isDirtyRead && s.isDatabaseMVCC m.clientId m.databaseId) =
      some p at hp
    simp only [hod, hp, hshows.view, hexist]
    cases herror : m.blobs.findSome? fun a =>
        (Database.requested m.lockMode t a.toBlobLocation).2 with
    | some error => exact ⟨_, _, rfl⟩
    | none =>
      rw [herror] at hexist
      dsimp only
      split_ifs with hfree
      · -- no locks are needed
        obtain ⟨rs, hrs⟩ := (hshows.exists_buildBlobsReadResponse_iff hexist
          (Database.Loads.refl db)).mpr hanswer
        rw [sendBlobs_eq, hrs]
        exact ⟨_, _, rfl⟩
      · -- the locks can be enumerated, since all that is requested exists
        rw [Bool.not_eq_true, Bool.or_eq_false_iff] at hfree
        rw [hfree.2] at hp
        obtain rfl := Option.some.inj hp
        obtain ⟨v, hinv⟩ := hs.exists_inv hod
        obtain ⟨hlooked, hfound, -⟩ := Database.ensureRequestedBlobsExist_spec hexist
        have hinv₁ := (hlooked.loads hinv.wf hinv.path).inv hinv
        obtain ⟨ls, hls⟩ := Option.isSome_iff_exists.mp
          (isSome_forEachLockInMessage fun a ha => (hfound rfl a ha).1)
        obtain ⟨b, od', hacquire⟩ : ∃ b od', acquireLocks s.active m t { od with database := db } =
          some (b, od') := exists_acquireLocks hinv₁ hls
        rw [hacquire]
        cases b with
        | false => exact ⟨_, _, rfl⟩
        | true =>
          obtain ⟨db', hlooked', -, hgranted⟩ := acquireLocks_spec hacquire hinv₁
          obtain ⟨ls', -, -, -, rfl⟩ := hgranted rfl
          obtain ⟨rs, hrs⟩ := (hshows.exists_buildBlobsReadResponse_iff hexist
            (hlooked'.loads hinv₁.wf hinv₁.path)).mpr hanswer
          dsimp only
          rw [sendBlobs_eq, hrs]
          exact ⟨_, _, rfl⟩

/-! ### Trying the reads that wait -/

theorem exists_processQueuedReads {qs : List BlobsRead} (hwf : UsersWF s) (hs : Healthy s)
    (hqs : ∀ q ∈ qs, s.readsKept q = false ∧ s.AnswerFits q) :
    ∃ r, processQueuedReads qs s = some r := by
  induction qs generalizing s with
  | nil => exact ⟨_, rfl⟩
  | cons q qs ih =>
    obtain ⟨b, s₁, htry⟩ := exists_tryHandleBlobsRead hwf hs (hqs q List.mem_cons_self).2
    have hsteady := (triedRead htry).steady hs
    have ht := tried htry
    obtain ⟨r, hr⟩ := ih (s := s₁) (hwf.of_kept ht.kept ht.queue)
      (healthy_of_triedRead (triedRead htry) hs) fun q' hq' => by
        obtain ⟨hkept, hfits⟩ := hqs q' (List.mem_cons_of_mem _ hq')
        exact hfits.congr hkept (by rw [hsteady.clients]) hsteady.tree
    rw [processQueuedReads, htry]
    cases b with
    | true => exact ⟨r, hr⟩
    | false =>
      dsimp only
      rw [hr]
      exact ⟨_, rfl⟩

theorem exists_tryProcessQueuedReads (hwf : UsersWF s) (hs : Healthy s)
    (hname : (s.useCount name).isSome)
    (hqs : ∀ q ∈ s.queue name, s.readsKept q = false ∧ s.AnswerFits q) :
    ∃ s', s.tryProcessQueuedReads name = some s' := by
  obtain ⟨n, hn⟩ := Option.isSome_iff_exists.mp hname
  obtain ⟨od, hod, -⟩ := Option.map_eq_some_iff.mp hn
  rw [queue_of_some hod] at hqs
  obtain ⟨⟨qs, s₁⟩, hprocess⟩ := exists_processQueuedReads hwf hs hqs
  have hn₁ := ((processQueuedReads_keeps hprocess).1.useCount name).trans hn
  obtain ⟨od₁, hod₁, -⟩ := Option.map_eq_some_iff.mp hn₁
  rw [tryProcessQueuedReads, hod]
  dsimp only
  rw [hprocess]
  exact ⟨_, updateDatabase_eq_some_iff.mpr ⟨od₁, _, hod₁, rfl, rfl⟩⟩

theorem exists_foldlM_tryProcessQueuedReads (names : List DatabaseName) (hwf : UsersWF s)
    (hs : Healthy s) (hnames : ∀ name ∈ names, (s.useCount name).isSome)
    (hqs : ∀ name, ∀ q ∈ s.queue name, s.readsKept q = false ∧ s.AnswerFits q) :
    ∃ s', names.foldlM tryProcessQueuedReads s = some s' := by
  induction names generalizing s with
  | nil => exact ⟨s, rfl⟩
  | cons name names ih =>
    obtain ⟨hname, hnames⟩ := List.forall_mem_cons.mp hnames
    obtain ⟨s₁, h₁⟩ := exists_tryProcessQueuedReads hwf hs hname (hqs name)
    obtain ⟨hsteady, hs₁, -, -⟩ := tryProcessQueuedReads_blocked h₁ hs
    obtain ⟨hkept, hother, hself, -⟩ := tryProcessQueuedReads_keeps h₁
    have hsub : ∀ name', (s₁.queue name').Sublist (s.queue name') := fun name' => by
      by_cases hne : name' = name
      · exact hne ▸ hself
      · rw [hother name' hne]
    have hwf₁ : UsersWF s₁ := hwf.of_sublist (fun c => openNames_congr (by rw [hkept.clients]))
      (fun name => Or.inl (hkept.useCount name)) hsub
    obtain ⟨s', h'⟩ := ih hwf₁ hs₁ (fun name' hn => by rw [hkept.useCount]; exact hnames name' hn)
      fun name' q hq => by
        obtain ⟨hk, hfits⟩ := hqs name' q ((hsub name').subset hq)
        exact hfits.congr hk (by rw [hsteady.clients]) hsteady.tree
    exact ⟨s', by rw [List.foldlM_cons, h₁]; exact h'⟩

/-! ### The end of a transaction -/

/-- Whatever leads to the end of a transaction, the reads that wait are answered or wait on. -/
theorem exists_abortTransaction (hwf : UsersWF s) (hs : Healthy s)
    (hqs : ∀ name, ∀ q ∈ s.queue name, s.readsKept q = false ∧ s.AnswerFits q)
    (hleave : s.active c = true → (s.clientAbortTransaction c b).isSome) :
    ∃ s', s.abortTransaction c b = some s' := by
  cases hactive : s.active c with
  | false => exact ⟨s, by rw [abortTransaction, hactive]; rfl⟩
  | true =>
    obtain ⟨s₁, h₁⟩ := Option.isSome_iff_exists.mp (hleave hactive)
    have hmoves : Moves .noCommits s s₁ := moves_clientAbortTransaction h₁ hactive hwf hs trivial
    obtain ⟨s₀, hfold, hs₀⟩ := Option.map_eq_some_iff.mp h₁
    obtain ⟨hkept, -, hqueue⟩ := foldlM_leaveDatabase hfold
    have hslots : ∀ d, (s₁.clients d).openDatabases = (s.clients d).openDatabases := fun d => by
      rw [← hs₀, ← hkept.clients]
      by_cases hd : d = c
      · rw [hd, clients_setClient_self]
      · rw [clients_setClient_of_ne hd]
    have hcount : ∀ name, s₁.useCount name = s.useCount name := fun name => by
      rw [← hs₀]
      exact hkept.useCount name
    have hsub : ∀ name, (s₁.queue name).Sublist (s.queue name) := fun name => by
      rw [← hs₀]
      change (s₀.queue name).Sublist _
      rw [hqueue]
      split_ifs
      · exact List.filter_sublist
      · exact List.Sublist.refl _
    have htree : ∀ name, s₁.tree name = s.tree name := fun name => by
      rw [← hs₀]
      exact tree_foldlM_leaveDatabase hfold name
    have hwf₁ : UsersWF s₁ := hwf.of_sublist (fun d => openNames_congr (hslots d))
      (fun name => Or.inl (hcount name)) hsub
    obtain ⟨s', h'⟩ := exists_foldlM_tryProcessQueuedReads (s₁.openNames c) hwf₁
      (hmoves.healthy hs) (fun name hn => hwf₁.isOpen c name hn) fun name q hq => by
        obtain ⟨hk, hfits⟩ := hqs name q ((hsub name).subset hq)
        exact hfits.congr hk (hslots _) htree
    refine ⟨s', ?_⟩
    rw [abortTransaction, if_pos hactive, h₁]
    exact h'

/-- A transaction can always end when its locks are kept. -/
theorem isSome_clientAbortTransaction (hwf : UsersWF s) :
    (s.clientAbortTransaction c false).isSome := by
  have hfold : ∀ (slots : List DatabaseSlot) (s : Server),
      (∀ slot ∈ slots, ∀ name ∈ slot.database, (s.useCount name).isSome) →
      (slots.foldlM (leaveDatabase c false) s).isSome := by
    intro slots
    induction slots with
    | nil => exact fun _ _ => rfl
    | cons slot slots ih =>
      intro s hopen
      obtain ⟨hslot, hopen⟩ := List.forall_mem_cons.mp hopen
      obtain ⟨s₁, h₁⟩ : ∃ s₁, leaveDatabase c false s slot = some s₁ := by
        unfold leaveDatabase
        cases hname : slot.database with
        | none => exact ⟨s, rfl⟩
        | some name =>
          obtain ⟨n, hn⟩ := Option.isSome_iff_exists.mp (hslot name hname)
          obtain ⟨od, hod, -⟩ := Option.map_eq_some_iff.mp hn
          exact ⟨_, updateDatabase_eq_some_iff.mpr ⟨od, _, hod, rfl, rfl⟩⟩
      have hcount : ∀ name, s₁.useCount name = s.useCount name := fun name => by
        rcases leaveDatabase_eq_some h₁ with ⟨-, rfl⟩ | ⟨name', od, od', -, hod, hu, -, rfl⟩
        · rfl
        · exact (kept_setDatabase hod hu).useCount name
      rw [List.foldlM_cons, h₁]
      exact ih s₁ fun slot' hslot' name hname => by
        rw [hcount]
        exact hopen slot' hslot' name hname
  rw [clientAbortTransaction, Option.isSome_map]
  refine hfold _ s fun slot hslot name hname => hwf.isOpen c name ?_
  exact List.mem_filterMap.mpr ⟨slot, hslot, hname⟩

/-! ### A new read -/

/-- The reads that wait do not read from kept snapshots. -/
theorem AllFit.readsKept (h : AllFit s) (hq : q ∈ s.queue name) : s.readsKept q = false := by
  rw [Server.readsKept, (h name q hq).isMVCC, Bool.and_false]

/-- The reads that wait can be answered, should it come to that. -/
structure Ready (s : Server) : Prop where
  usersWF : UsersWF s
  healthy : Healthy s
  fit : AllFit s
  waiting : s.WaitingFit

namespace Ready

theorem sendError (h : Ready s) (r : BlobsReadResponse.Result) : Ready (s.sendError c r) := by
  have hmoves : Moves .noCommits s (s.sendError c r) := .single (.send c _)
  refine ⟨h.usersWF.send _, hmoves.healthy h.healthy, hmoves.allFit h.healthy h.fit,
    fun name q hq => ?_⟩
  have hsame : (s.sendError c r).readsKept q = false ∧ (s.sendError c r).AnswerFits q :=
    (h.waiting name q hq).congr (h.fit.readsKept hq) rfl fun _ => rfl
  exact hsame.2

theorem exists_abortTransaction (h : Ready s)
    (hleave : s.active c = true → (s.clientAbortTransaction c b).isSome) :
    ∃ s', s.abortTransaction c b = some s' :=
  Server.exists_abortTransaction h.usersWF h.healthy
    (fun name q hq => ⟨h.fit.readsKept hq, h.waiting name q hq⟩) hleave

theorem abortTransaction (h : Ready s) (habort : s.abortTransaction c b = some s') : Ready s' := by
  have hmoves : Moves .noCommits s s' := moves_abortTransaction habort h.usersWF h.healthy trivial
  obtain ⟨hwf, hclients⟩ := abortTransaction_clients habort h.usersWF
  have hslots : ∀ d, (s'.clients d).openDatabases = (s.clients d).openDatabases := fun d => by
    rw [hclients]
    by_cases hd : d = c
    · rw [hd, Function.update_self]
    · rw [Function.update_of_ne hd]
  have hsub : ∀ name, s'.queue name ⊆ s.queue name := fun name => by
    cases hactive : s.active c with
    | true => exact ((ended_abortTransaction habort hactive).queue name).subset
    | false =>
      rw [Server.abortTransaction, hactive] at habort
      obtain rfl := Option.some.inj habort
      exact List.Subset.refl _
  refine ⟨hwf, hmoves.healthy h.healthy, hmoves.allFit h.healthy h.fit, fun name q hq => ?_⟩
  have hq' := hsub name hq
  exact ((h.waiting name q hq').congr (h.fit.readsKept hq') (hslots _)
    (tree_abortTransaction habort h.usersWF h.healthy)).2

theorem exists_foldlM_abortVictim {vs : List ClientId} (h : Ready s) :
    ∃ s', vs.foldlM abortVictim s = some s' := by
  induction vs generalizing s with
  | nil => exact ⟨s, rfl⟩
  | cons v vs ih =>
    have hsent : Ready (s.sendError v .deadlock) := h.sendError _
    obtain ⟨s₁, h₁⟩ : ∃ s₁, s.abortVictim v = some s₁ :=
      hsent.exists_abortTransaction fun _ => isSome_clientAbortTransaction hsent.usersWF
    obtain ⟨s', h'⟩ := ih (hsent.abortTransaction h₁)
    exact ⟨s', by rw [List.foldlM_cons, h₁]; exact h'⟩

end Ready

/-- Looking for the victims of a deadlock has an answer. -/
theorem exists_deadlocks {active : ClientId → Bool} {t : Tree 3} {od : OpenDatabase}
    {blockedBy found : List ClientId} {qs : List BlobsRead}
    (hqs : ∀ q ∈ qs, (forEachLockInMessage t q.blobs).isSome) :
    ∃ found', deadlocks active m t od blockedBy qs found = some found' := by
  induction qs generalizing found with
  | nil => exact ⟨found, rfl⟩
  | cons q qs ih =>
    obtain ⟨hq, hqs⟩ := List.forall_mem_cons.mp hqs
    obtain ⟨ls, hls⟩ := Option.isSome_iff_exists.mp hq
    rw [deadlocks]
    split_ifs
    · exact ih hqs
    · rw [findLockConflictWith, collectLockConflicts, hls]
      dsimp only [Option.map_some]
      split
      · next h => cases h
      · exact ih hqs
      · exact ih hqs

/-- A read that has to wait joins the queue. -/
theorem exists_queueReadCheckDeadlock (hfit : AllFit s) (hm : s.Fits name m)
    {od : OpenDatabase} (hod : s.databases name = some od) :
    ∃ found, s.queueReadCheckDeadlock m name =
      some (found, s.setDatabase name { od with queuedReads := od.queuedReads ++ [m] }) := by
  obtain ⟨t, ht, hexist⟩ := hm.exist
  obtain ⟨ls, hls⟩ := Option.isSome_iff_exists.mp (isSome_forEachLockInMessage hexist)
  obtain ⟨found, hfound⟩ : ∃ found, deadlocks s.active m t od
      (ls.flatMap (od.locks.conflicts s.active m.clientId m.needsWriteLock)) od.queuedReads [] =
        some found := by
    refine exists_deadlocks fun q hq => ?_
    obtain ⟨t', ht', hexist'⟩ := (hfit name q (by rw [queue_of_some hod]; exact hq)).exist
    obtain rfl := Option.some.inj (ht.symm.trans ht')
    exact isSome_forEachLockInMessage hexist'
  rw [tree_of_some hod] at ht
  refine ⟨found, ?_⟩
  unfold queueReadCheckDeadlock
  simp only [hod, ht, collectLockConflicts, hls, Option.map_some, hfound]

/-- A read is answered or waits, and the clients of a deadlock are told. -/
theorem Ready.exists_handleBlobsRead (h : Ready s) (hfits : s.AnswerFits m) :
    ∃ s', s.handleBlobsRead m = some s' := by
  obtain ⟨b, s₁, htry⟩ := exists_tryHandleBlobsRead h.usersWF h.healthy hfits
  unfold handleBlobsRead
  rw [htry]
  cases b with
  | true => exact ⟨s₁, rfl⟩
  | false =>
    by_cases htimeout : m.lockTimeoutMs = 0
    · exact ⟨_, if_pos htimeout⟩
    dsimp only
    rw [if_neg htimeout]
    have htried := Server.triedRead htry
    have hsteady := htried.steady h.healthy
    have ht := tried htry
    have hmoves : Moves .noCommits s s₁ := htried.moves h.healthy trivial
    have hwf₁ := h.usersWF.of_kept ht.kept ht.queue
    obtain ⟨name, hm⟩ : ∃ name, s.Fits name m := by
      cases htried with
      | refused hread hdirty => exact ⟨_, hread.fits hdirty⟩
    have hm₁ := hsteady.fits hm
    obtain ⟨od, hod⟩ := hwf₁.exists_database hm₁.getDatabase
    obtain ⟨found, hcheck⟩ := exists_queueReadCheckDeadlock (hmoves.allFit h.healthy h.fit) hm₁ hod
    rw [hm₁.getDatabase]
    dsimp only
    rw [hcheck]
    dsimp only
    -- the read waits, like those before
    have hvictims : findVictims m s = some (if found.any fun c =>
        ((s₁.setDatabase name { od with queuedReads := od.queuedReads ++ [m] }).clients
          m.clientId).transactionPriority ≤ ((s₁.setDatabase name { od with
            queuedReads := od.queuedReads ++ [m] }).clients c).transactionPriority
        then [m.clientId] else found,
        s₁.setDatabase name { od with queuedReads := od.queuedReads ++ [m] }) := by
      rw [findVictims, htry]
      simp only [if_neg htimeout, hm₁.getDatabase, hcheck, Option.map_some]
    have hfound := foundVictims hvictims
    set s₂ := s₁.setDatabase name { od with queuedReads := od.queuedReads ++ [m] } with hs₂
    have hmoves₂ : Moves .noCommits s s₂ := hfound.moves h.healthy trivial
    have hfit₂ := hmoves₂.allFit h.healthy h.fit
    have htree : ∀ name, s₂.tree name = s.tree name := fun name' =>
      ((Steady.queued hod).tree name').trans (hsteady.tree name')
    have hclients : s₂.clients = s.clients := hsteady.clients
    have hready : Ready s₂ := by
      refine ⟨(hfound.waiting h.usersWF).1, hmoves₂.healthy h.healthy, hfit₂, fun name' q hq => ?_⟩
      have hkept : s.readsKept q = false := by
        have := hfit₂.readsKept hq
        rwa [readsKept, isDatabaseMVCC, hclients] at this
      refine (AnswerFits.congr ?_ hkept (by rw [hclients]) htree).2
      by_cases hne : name' = name
      · subst hne
        rw [hs₂, queue_setDatabase_self, ← queue_of_some hod, ht.queue, List.mem_append,
          List.mem_singleton] at hq
        rcases hq with hq | rfl
        · exact h.waiting _ q hq
        · exact hfits
      · rw [hs₂, queue_setDatabase_of_ne hne, ht.queue] at hq
        exact h.waiting name' q hq
    split_ifs
    · exact ⟨s₂, rfl⟩
    · have hsent : Ready (s₂.sendError m.clientId .deadlock) := hready.sendError _
      exact hsent.exists_abortTransaction fun _ => isSome_clientAbortTransaction hsent.usersWF
    · exact hready.exists_foldlM_abortVictim

/-- A read that would get its locks is answered if its answer fits. Otherwise trying it has no end: it
is neither answered nor put into the queue. -/
theorem Fits.tryHandleBlobsRead_eq {t : Tree 3} (hm : s.Fits name m) (hs : Healthy s)
    (ht : s.tree name = some t) (hfree : ∀ x, ¬s.BlockedBy name m x) :
    (t.AnswerFits m → ∃ s', s.tryHandleBlobsRead m = some (true, s')) ∧
      (¬t.AnswerFits m → s.tryHandleBlobsRead m = none) := by
  obtain ⟨od, hod, htree⟩ := Option.bind_eq_some_iff.mp ht
  obtain ⟨t', ht', hfound⟩ := hm.exist
  obtain rfl := Option.some.inj (ht.symm.trans ht')
  obtain ⟨v, hinv⟩ := hs.exists_inv hod
  obtain rfl := Option.some.inj (htree.symm.trans hinv.view)
  obtain ⟨db, hexist, hinv₁⟩ := exists_ensureRequestedBlobsExist hinv hfound
  obtain ⟨ls, hls⟩ := Option.isSome_iff_exists.mp (isSome_forEachLockInMessage hfound)
  obtain ⟨b, od', hacquire⟩ : ∃ b od', acquireLocks s.active m t { od with database := db } =
      some (b, od') := exists_acquireLocks hinv₁ hls
  obtain ⟨db', hlooked, hrefused, hgranted⟩ := acquireLocks_spec hacquire hinv₁
  cases b with
  | false =>
    -- nobody blocks the read
    obtain ⟨l, hl, hcan⟩ := (hrefused rfl).2 ls hls
    refine absurd hcan (Bool.not_eq_false _ ▸ LockBook.canAcquire_iff.mpr fun x hx => ?_)
    refine hfree x ⟨t, ls, ht, hls, l, hl, ?_⟩
    rwa [locks_of_some hod]
  | true =>
    obtain ⟨ls', -, -, -, rfl⟩ := hgranted rfl
    have hbuild := hinv.shows.exists_buildBlobsReadResponse_iff hexist
      (hlooked.loads hinv₁.wf hinv₁.path)
    unfold tryHandleBlobsRead
    simp only [hm.getDatabase, hm.active, hm.isMVCC, hm.isDirtyRead, hod, Database.snapshotFor,
      htree, hexist, hacquire, Bool.not_true, Bool.and_false, Bool.false_and, Bool.or_false,
      Bool.false_eq_true, if_false, sendBlobs_eq]
    constructor
    · intro hfits
      obtain ⟨rs, hrs⟩ := hbuild.mpr hfits
      rw [hrs]
      exact ⟨_, rfl⟩
    · intro hnot
      rw [Option.eq_none_iff_forall_ne_some.mpr fun rs hrs => hnot (hbuild.mp ⟨rs, hrs⟩)]
      rfl

/-- A read that gets its locks is answered, and does not look for deadlocks. -/
theorem Fits.exists_handleBlobsRead_iff {t : Tree 3} (hm : s.Fits name m) (hs : Healthy s)
    (ht : s.tree name = some t) (hfree : ∀ x, ¬s.BlockedBy name m x) :
    (∃ s', s.handleBlobsRead m = some s') ↔ t.AnswerFits m := by
  constructor
  · rintro ⟨s', h'⟩
    by_contra hnot
    rw [handleBlobsRead, (hm.tryHandleBlobsRead_eq hs ht hfree).2 hnot] at h'
    cases h'
  · intro hfits
    obtain ⟨s', h'⟩ := (hm.tryHandleBlobsRead_eq hs ht hfree).1 hfits
    exact ⟨s', by rw [handleBlobsRead, h']⟩

/-! ### Ends of transactions -/

/-- The server is about to end the transaction of a client, and to give up its locks or not: on
request, at the end of its connection or as it is the victim of a deadlock, or after its commit was
rejected or applied. -/
inductive Ending (s : Server) (c : ClientId) : Bool → Server → Prop
  | asked (b : Bool) : Ending s c b s
  | rejected {s₁ : Server} (hprepares : Prepares s s₁) (hwf : UsersWF s₁) : Ending s c true s₁
  | applied {σ : DatabaseName → Schedule} {gs : List (DatabaseId × List TransactionCommit)}
      {ls : List (DatabaseId × List BlobLocation)} {s₁ s₂ : Server}
      {commits : List (DatabaseId × CommitId)} (hactive : s.active c = true)
      (happlied : AppliesCommit s c σ gs ls s₁ s₂ commits) :
    Ending s c false (s₂.send c (.transactionCommit .success commits))

/-- Every commit that is finished ends the transaction so. -/
theorem ending_of_finishCommit {σ : DatabaseName → Schedule} {ms : List TransactionCommit}
    (h : s.finishCommit c σ ms = some s') (hwf : UsersWF s) (hs : Healthy s)
    (hactive : s.active c = true) :
    ∃ b s₁, Ending s c b s₁ ∧ s₁.abortTransaction c b = some s' := by
  rcases finishCommit_cases h hwf hs with ⟨-, s₁, hprepares, hwf₁, habort⟩ |
    ⟨gs, ls, s₁, s₂, commits, -, -, happlied, habort⟩
  · exact ⟨true, s₁, .rejected hprepares hwf₁, habort⟩
  · exact ⟨false, _, .applied hactive happlied, habort⟩

/-- The transaction ends, and the reads that wait in its databases are answered or wait on. -/
theorem Ending.exists_abortTransaction (h : Ending s c b s₁) (hwf : UsersWF s) (hs : Healthy s)
    (hfit : AllFit s) (hwaiting : s₁.WaitingFit)
    (hleave : b = true → s₁.active c = true → (s₁.clientAbortTransaction c b).isSome) :
    ∃ s', s₁.abortTransaction c b = some s' := by
  have hleave' : UsersWF s₁ → s₁.active c = true → (s₁.clientAbortTransaction c b).isSome :=
    fun hwf₁ hactive => by
      cases b with
      | true => exact hleave rfl hactive
      | false => exact isSome_clientAbortTransaction hwf₁
  cases h with
  | asked b =>
    exact Server.exists_abortTransaction hwf hs
      (fun name q hq => ⟨hfit.readsKept hq, hwaiting name q hq⟩) (hleave' hwf)
  | rejected hprepares hwf₁ =>
    have hmoves : Moves .noCommits s s₁ := hprepares.moves.mono (Permit.noBegins_le trivial)
    have hfit₁ := hmoves.allFit hs hfit
    exact Server.exists_abortTransaction hwf₁ (hmoves.healthy hs)
      (fun name q hq => ⟨hfit₁.readsKept hq, hwaiting name q hq⟩) (hleave' hwf₁)
  | @applied σ gs ls s₁ s₂ commits hactive happlied =>
    have hmoves : Moves .noCommits s s₁ :=
      happlied.prepares.moves.mono (Permit.noBegins_le trivial)
    have hfit₁ := hmoves.allFit hs hfit
    have happlies := applies_commitDatabases happlied.applied
    have hwf₂ : UsersWF (s₂.send c (.transactionCommit .success commits)) :=
      happlied.usersWF_applied.send _
    have hs₂ : Healthy (s₂.send c (.transactionCommit .success commits)) :=
      Moves.healthy (P := .all) (.single (.send c _)) (happlied.healthy hactive hs)
    refine Server.exists_abortTransaction hwf₂ hs₂
      (fun name q hq => ⟨?_, hwaiting name q hq⟩) (hleave' hwf₂)
    -- the clients of the reads that wait are as they were before the commit was applied
    have hq₁ : q ∈ s₁.queue name := happlies.queue name ▸ hq
    have hkept := hfit₁.readsKept hq₁
    rwa [readsKept, isDatabaseMVCC, ← happlies.clients] at hkept

/-! ### Runs -/

variable {log : ClientId → List ReadEvent}

/-- In every run, each read of a client is answered once and completely, unless the client
withdrew it, or it waits in a queue. If the answers fit, handling a read comes to an end, and so does
trying the reads that wait again at the end of a transaction whose locks can be given up, and looking
for those whose time is out. A read that would get its locks is handled only if its answer fits. -/
theorem Converses.answered_once (h : Converses s log) :
    (∀ c, Answered (log c) (outstanding (log c)) ∧
      ∀ m, outstanding (log c) = some m ↔ s.WaitsFor c m) ∧
    (∀ m, (s.clients m.clientId).connected = true → s.AnswerFits m → s.WaitingFit →
      ∃ s', Step s (.blobsRead m) s') ∧
    (∀ name m t, (s.clients m.clientId).connected = true → s.Fits name m → s.tree name = some t →
      (∀ x, ¬s.BlockedBy name m x) → ((∃ s', Step s (.blobsRead m) s') ↔ t.AnswerFits m)) ∧
    (∀ c b s₁, Ending s c b s₁ → s₁.WaitingFit →
      (b = true → s₁.active c = true → (s₁.clientAbortTransaction c b).isSome) →
      ∃ s', s₁.abortTransaction c b = some s') ∧
    ∀ name due, ∃ s', Step s (.lockTimeouts name due) s' := by
  obtain ⟨hwf, hs, -, hfit, htells⟩ := h.tells
  have hstep : ∀ m, (s.clients m.clientId).connected = true →
      ((∃ s', Step s (.blobsRead m) s') ↔ ∃ s', s.handleBlobsRead m = some s') :=
    fun m hconnected => exists_congr fun s' =>
      ⟨fun h => h.2, fun h => ⟨fun c hc => by cases hc; exact hconnected, h⟩⟩
  refine ⟨htells, fun m hconnected hfits hwaiting => ?_, fun name m t hconnected hm ht hfree => ?_,
    fun c b s₁ hending hwaiting hleave => ?_, fun name due => ?_⟩
  · have hready : Ready s := ⟨hwf, hs, hfit, hwaiting⟩
    exact (hstep m hconnected).mpr (hready.exists_handleBlobsRead hfits)
  · rw [hstep m hconnected]
    exact hm.exists_handleBlobsRead_iff hs ht hfree
  · exact hending.exists_abortTransaction hwf hs hfit hwaiting hleave
  · have htimeouts : ∃ s', s.checkForLockTimeouts name due = some s' := by
      unfold checkForLockTimeouts
      split <;> exact ⟨_, rfl⟩
    obtain ⟨s', h'⟩ := htimeouts
    exact ⟨s', fun c hc => (nomatch hc), h'⟩

/-! ### A blob that fits no message -/

/-- The client reads a blob that it has written. -/
def readsWritten (data : List UInt8) : List Event :=
  [.connectionOpened 1, .databaseOpen 1 (.mem 0) .createIfNotExist false, .transactionBegin 1 0 [],
    .blobsRead ⟨1, 0, .write, -1, [⟨⟨0, 0, 0⟩, 0⟩]⟩,
    .transactionCommit 1 ⟨false, 0, [⟨⟨0, 0, 0⟩, some data⟩]⟩ fun _ => ⟨[], [], .insertion, []⟩,
    .transactionBegin 1 0 []]

/-- What the client asks for in the end. -/
def rereads : BlobsRead := ⟨1, 0, .read, -1, [⟨⟨0, 0, 0⟩, 0⟩]⟩

/-- What the server has for the client in the end, whatever the data. -/
theorem converse_readsWritten (data : List UInt8) :
    ((Server.converse (readsWritten data) (start (fun _ => none) 0, fun _ => [])).bind fun r =>
      (r.1.tree (.mem 0)).map fun t =>
        ((r.1.clients 1).connected, (outstanding (r.2 1)).isNone, r.1.active 1,
          r.1.getDatabase 1 0, r.1.isDatabaseMVCC 1 0,
          (Database.requested .read t ⟨0, 0, 0⟩).2, Tree.readContent t 0 ⟨0, 0, 0⟩,
          forEachLockForLocation t ⟨0, 0, 0⟩,
          (r.1.locks (.mem 0)).conflicts r.1.active 1 false ⟨0, 0, 0⟩)) =
    some (true, true, true, some (.mem 0), false, none, some (⟨2, data⟩ : VersionedContent),
      some [⟨0, 0, 0⟩], []) := by
  with_unfolding_all rfl

/-- The client reads the blob again, and nobody keeps it from doing so. -/
theorem exists_rereads (data : List UInt8) :
    ∃ s log t, Converses s log ∧ (s.clients 1).connected = true ∧ outstanding (log 1) = none ∧
      s.Fits (.mem 0) rereads ∧ s.tree (.mem 0) = some t ∧
      (∀ x, ¬s.BlockedBy (.mem 0) rereads x) ∧
      Tree.readContent t 0 ⟨0, 0, 0⟩ = some ⟨2, data⟩ := by
  obtain ⟨⟨s, log⟩, hrun, hfacts⟩ := Option.bind_eq_some_iff.mp (converse_readsWritten data)
  obtain ⟨t, ht, hfacts⟩ := Option.map_eq_some_iff.mp hfacts
  simp only [Prod.mk.injEq] at hfacts
  obtain ⟨hconnected, hnone, hactive, hname, hmvcc, hexist, hread, hlocks, hconflicts⟩ := hfacts
  refine ⟨s, log, t, (Converses.start _ 0 (healthy_start 0)).converse hrun, hconnected,
    Option.isNone_iff_eq_none.mp hnone, ?_, ht, ?_, hread⟩
  · exact ⟨hactive, hname, hmvcc, rfl, t, ht, fun a ha => by
      rw [List.mem_singleton.mp ha]; exact hexist⟩
  · rintro x ⟨t', ls, ht', hls, l, hl, hx⟩
    obtain rfl := Option.some.inj (ht.symm.trans ht')
    rw [rereads, forEachLockInMessage, hlocks] at hls
    obtain rfl := Option.some.inj hls
    rw [List.mem_singleton.mp hl] at hx
    change x ∈ (s.locks (.mem 0)).conflicts s.active 1 false ⟨0, 0, 0⟩ at hx
    rw [hconflicts] at hx
    cases hx

/-- The answer fits unless the blob is longer than what fits into a message. -/
theorem answerFits_rereads_iff {t : Tree 3} {data : List UInt8} (hm : s.Fits (.mem 0) rereads)
    (ht : s.tree (.mem 0) = some t) (hread : Tree.readContent t 0 ⟨0, 0, 0⟩ = some ⟨2, data⟩) :
    t.AnswerFits rereads ↔ data.length ≤ 0xffffffff - 36 := by
  obtain ⟨t', ht', hall⟩ := hm.exist
  obtain rfl := Option.some.inj (ht.symm.trans ht')
  constructor
  · intro h
    rcases h nofun hall _ (List.mem_singleton_self _) 0 _ hread with hcached | h
    · cases hcached
    · exact fitsIntoMessage_one_iff.mp h
  · intro hdata _ _ a ha k v hv
    rw [List.mem_singleton.mp ha] at hv
    refine Or.inr (fitsIntoMessage_one_iff.mpr ?_)
    rcases Tree.readContent_congr 0 hv with hv | hlength
    · obtain rfl := Option.some.inj (hread.symm.trans hv)
      exact hdata
    · omega

/-- A read that waits for another client, and is answered when that client commits; and a read of
what was written that is handled, as its answer fits. -/
theorem Converses.answered_once_waited :
    (∃ s s' log log' q, Converses s log ∧ Converses s' log' ∧
      outstanding (log 2) = some q ∧ s.WaitsFor 2 q ∧ outstanding (log' 2) = none ∧
        (log' 2).length = (log 2).length + 1 ∧ Answered (log' 2) (outstanding (log' 2))) ∧
    ∃ s s' log, Converses s log ∧ Step s (.blobsRead rereads) s' := by
  constructor
  · let σ : DatabaseName → Schedule := fun _ => ⟨[], [], .insertion, []⟩
    let q : BlobsRead := ⟨2, 0, .read, -1, [⟨⟨0, 0, 0⟩, 0⟩]⟩
    let es : List Event := [.connectionOpened 1, .databaseOpen 1 (.mem 0) .createIfNotExist false,
      .transactionBegin 1 0 [], .connectionOpened 2,
      .databaseOpen 2 (.mem 0) .createIfNotExist false, .transactionBegin 2 0 [],
      .blobsRead ⟨1, 0, .write, -1, [⟨⟨0, 0, 0⟩, 0⟩]⟩, .blobsRead q]
    have hrun : ((Server.converse es (Server.start (fun _ => none) 0, fun _ => [])).bind fun r =>
        (Server.converse [.transactionCommit 1 ⟨false, 0, []⟩ σ] r).map fun r' =>
          decide (outstanding (r.2 2) = some q ∧ outstanding (r'.2 2) = none ∧
            (r'.2 2).length = (r.2 2).length + 1)) = some true := by
      decide +kernel
    obtain ⟨⟨s, log⟩, hs, hrun⟩ := Option.bind_eq_some_iff.mp hrun
    obtain ⟨⟨s', log'⟩, hs', hrun⟩ := Option.map_eq_some_iff.mp hrun
    obtain ⟨hq, hnone, hlen⟩ := of_decide_eq_true hrun
    have h := (Converses.start _ 0 (healthy_start 0)).converse hs
    have h' := h.converse hs'
    exact ⟨s, s', log, log', q, h, h', hq, ((h.answered_once.1 2).2 q).mp hq, hnone, hlen,
      (h'.answered_once.1 2).1⟩
  · obtain ⟨s, log, t, h, hconnected, -, hm, ht, hfree, hread⟩ := exists_rereads [7]
    have hfits : t.AnswerFits rereads := (answerFits_rereads_iff hm ht hread).mpr (by decide)
    obtain ⟨s', hstep⟩ :=
      (h.answered_once.2.2.1 (.mem 0) rereads t hconnected hm ht hfree).mpr hfits
    exact ⟨s, s', log, h, hstep⟩

/-- A client commits a blob that is one byte longer than what fits into a message of an answer, and
reads it: the read is neither answered nor put into the queue, as the loop that fills the messages
does not end, in however many rounds. -/
theorem not_answered_of_long : ∃ s log, Converses s log ∧ (s.clients 1).connected = true ∧
    outstanding (log 1) = none ∧ s.handle (.blobsRead rereads) = none ∧
      ∀ fuel, buildResponses fuel
        [(⟨⟨0, 0, 0⟩, 0⟩, some ⟨2, List.replicate 4294967260 0⟩)] = none := by
  -- only the length counts: the blob is never written out
  generalize hdata : List.replicate 4294967260 (0 : UInt8) = data
  have hlong : ¬data.length ≤ 0xffffffff - 36 := by
    rw [← hdata, List.length_replicate]
    omega
  obtain ⟨s, log, t, hrun, hconnected, hnone, hm, ht, hfree, hread⟩ := exists_rereads data
  refine ⟨s, log, hrun, hconnected, hnone, ?_, fun fuel => ?_⟩
  · have hnot := mt (hm.exists_handleBlobsRead_iff hrun.tells.2.1 ht hfree).mp
      (mt (answerFits_rereads_iff hm ht hread).mp hlong)
    exact Option.eq_none_iff_forall_ne_some.mpr fun s' hs' => hnot ⟨s', hs'⟩
  · exact Option.eq_none_iff_forall_ne_some.mpr fun rs hrs => hlong
      (fitsAlone_some_iff.mp (fitsAlone_of_buildResponses hrs _ (List.mem_singleton_self _)))

end Server

end BlobsDb
