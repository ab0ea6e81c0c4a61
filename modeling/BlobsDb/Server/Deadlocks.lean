import BlobsDb.Server.Answers

/-!
# Deadlocks in one database

Two clients are in a deadlock when each of them waits for the other. The server looks for
deadlocks when a read joins the queue, and ends the transaction of its client, or those of all
clients that are in a deadlock with it (`handleBlobsRead_resolves`).

The locks that are given up are granted to other reads in the queue, and nobody looks for
deadlocks then. This does no harm as long as a client has one read in the queue: when it is granted
its locks, it waits no more. A client that sends a second read before the first one is answered
gets into a deadlock this way that is never resolved (`not_deadlockFree_of_pipelined`).
-/

namespace BlobsDb

namespace Server

variable {P : Permit} {s s' s'' : Server} {c d x y : ClientId} {name name' : DatabaseName}
  {od od' : OpenDatabase} {m q : BlobsRead} {b w : Bool} {l : BlobLocation}

/-! ### Locks are well formed -/

/-- The locks of all databases are well formed. -/
def BooksWF (s : Server) : Prop := ∀ name od, s.databases name = some od → od.locks.WF

theorem BooksWF.setDatabase (h : BooksWF s) (hod : od.locks.WF) : BooksWF (s.setDatabase name od) := by
  intro name' od' hod'
  by_cases hne : name' = name
  · subst hne
    rw [databases_setDatabase_self] at hod'
    exact Option.some.inj hod' ▸ hod
  · rw [databases_setDatabase_of_ne hne] at hod'
    exact h name' od' hod'

/-- A change of a database keeps locks that are held. -/
theorem wf_of_change (hchange : od.Change P s name od') (h : od.locks.WF) : od'.locks.WF := by
  cases hchange with
  | granted => exact LockBook.wf_acquireLocks h
  | gaveUp _ _ hbook => exact LockBook.wf_releaseHeld hbook h
  | released _ hbook => exact LockBook.wf_releaseAll hbook h
  | committed _ _ _ hcommit =>
    obtain ⟨r, book, -, hbook, rfl⟩ := commitDatabase_eq_some hcommit
    exact LockBook.wf_releaseIf hbook (LockBook.wf_acquireImplicitWriteLocks h)
  | _ => exact h

/-- A move keeps locks that are held. -/
theorem Move.booksWF (hmove : Move P s s') (h : BooksWF s) : BooksWF s' := by
  cases hmove with
  | opened => exact h.setDatabase fun _ _ hl => (nomatch hl)
  | @closed name huse =>
    intro name' od hod
    rw [closeDatabase_databases, Function.update_apply] at hod
    split_ifs at hod
    exact h name' od hod
  | database hod hchange => exact h.setDatabase (wf_of_change hchange (h _ _ hod))
  | _ => exact h

/-- Moves keep the books of locks well formed. -/
theorem Moves.booksWF (hmoves : Moves P s s') (h : BooksWF s) : BooksWF s' := by
  induction hmoves with
  | refl => exact h
  | tail _ hmove ih => exact hmove.booksWF ih

/-- A server starts without locks. -/
theorem booksWF_start (files : DatabaseName → Option FileContent) (delay : ℕ) :
    BooksWF (start files delay) := fun _ _ hod => nomatch hod

/-! ### Waiting for each other -/

/-- A read of `x` waits in the database for locks of `y`. -/
def WaitsOn (s : Server) (name : DatabaseName) (x y : ClientId) : Prop :=
  ∃ q ∈ s.queue name, q.clientId = x ∧ s.BlockedBy name q y

/-- No two clients wait for each other in the database. -/
def DeadlockFree (s : Server) (name : DatabaseName) : Prop :=
  ∀ x y, s.WaitsOn name x y → ¬s.WaitsOn name y x

/-- A read and a client that waits for the client of the read would wait for each other. -/
def InDeadlock (s : Server) (name : DatabaseName) (m : BlobsRead) (x : ClientId) : Prop :=
  s.BlockedBy name m x ∧ s.WaitsOn name x m.clientId

/-- Who waits on another waits. -/
theorem WaitsOn.waits (h : s.WaitsOn name x y) : s.Waits x name := by
  obtain ⟨q, hq, hx, -⟩ := h
  exact ⟨q, hq, hx⟩

/-- The clients that wait in the database afterwards waited before, and have no more locks than
before. -/
structure Wanes (name : DatabaseName) (s s' : Server) : Prop where
  tree : s'.tree name = s.tree name
  queue : (s'.queue name).Sublist (s.queue name)
  conflicts : ∀ x, s'.Waits x name → ∀ d w l,
    x ∈ (s'.locks name).conflicts s'.active d w l → x ∈ (s.locks name).conflicts s.active d w l

namespace Wanes

theorem refl (name : DatabaseName) (s : Server) : Wanes name s s :=
  ⟨rfl, List.Sublist.refl _, fun _ _ _ _ _ hx => hx⟩

theorem trans (h : Wanes name s s') (h' : Wanes name s' s'') : Wanes name s s'' where
  tree := h'.tree.trans h.tree
  queue := h'.queue.trans h.queue
  conflicts x hw d w l hx :=
    h.conflicts x (hw.of_sublist h'.queue) d w l (h'.conflicts x hw d w l hx)

/-- Who waits on whom after a wane did so before. -/
theorem waitsOn (h : Wanes name s s') (hxy : s'.WaitsOn name x y) (hy : s'.Waits y name) :
    s.WaitsOn name x y := by
  obtain ⟨q, hq, hx, t, ls, ht, hls, l, hl, hconflict⟩ := hxy
  exact ⟨q, h.queue.subset hq, hx, t, ls, h.tree ▸ ht, hls, l, hl,
    h.conflicts y hy _ _ l hconflict⟩

/-- Who waits for each other afterwards did so before. -/
theorem mutual_before (h : Wanes name s s') (hxy : s'.WaitsOn name x y) (hyx : s'.WaitsOn name y x) :
    s.WaitsOn name x y ∧ s.WaitsOn name y x :=
  ⟨h.waitsOn hxy hyx.waits, h.waitsOn hyx hxy.waits⟩

end Wanes

/-! ### Trying a read -/

/-- A read that fits is refused its locks, or it is granted them and answered. -/
theorem Fits.triedRead (hfits : s.Fits name m) (h : s.tryHandleBlobsRead m = some (b, s')) :
    ∃ od od' snapshot t db, ReadOn m s name od false snapshot t db none ∧
      acquireLocks s.active m t { od with database := db } = some (b, od') ∧
      (b = false ∧ s' = s.setDatabase name od' ∨ b = true ∧ ∃ rs,
        buildBlobsReadResponse od'.database.heap snapshot m = some rs ∧
        s' = (s.setDatabase name od').sendAll m.clientId rs) := by
  obtain ⟨t, ht, hfound⟩ := hfits.exist
  obtain ⟨od, hod, htree⟩ := Option.bind_eq_some_iff.mp ht
  have hmvcc : false = (!m.isDirtyRead && s.isDatabaseMVCC m.clientId m.databaseId) := by
    rw [hfits.isMVCC, Bool.and_false]
  unfold tryHandleBlobsRead at h
  simp only [hfits.getDatabase, hfits.active, hfits.isMVCC, hfits.isDirtyRead, hod,
    Database.snapshotFor, htree, Bool.not_true, Bool.and_false, Bool.false_and, Bool.or_false,
    Bool.false_eq_true, if_false] at h
  split at h
  · cases h
  · next error db hexist =>
    obtain ⟨a, ha, he⟩ := (Database.ensureRequestedBlobsExist_spec hexist).2.2 error rfl
    exact absurd ((hfound a ha).symm.trans he) (by rintro ⟨⟩)
  · next db hexist =>
    have hread : ReadOn m s name od false od.database.snapshot t db none :=
      ⟨hfits.getDatabase, hod, Or.inr hfits.active, hmvcc, Or.inl rfl, rfl, htree, hexist⟩
    split at h
    · cases h
    · next od' hacquire =>
      cases h
      exact ⟨od, od', _, t, db, hread, hacquire, Or.inl ⟨rfl, rfl⟩⟩
    · next od' hacquire =>
      obtain ⟨s₁, hsend, heq⟩ := Option.map_eq_some_iff.mp h
      cases heq
      obtain ⟨rs, hrs, rfl⟩ := sendBlobs_eq_some_iff.mp hsend
      exact ⟨od, od', _, t, db, hread, hacquire, Or.inr ⟨rfl, rs, hrs, rfl⟩⟩

/-- The locks after a database changed. -/
theorem locks_setDatabase :
    (s.setDatabase name' od').locks name = if name = name' then od'.locks else s.locks name := by
  split_ifs with hne
  · rw [hne, locks_setDatabase_self]
  · exact locks_setDatabase_of_ne hne

/-- A read that is granted its locks could have waited for them. -/
theorem ReadOn.fits {snapshot : Pointer} {t : Tree 3} {db : Database}
    (hread : ReadOn m s name od false snapshot t db none) (hdirty : m.isDirtyRead = false) :
    s.Fits name m where
  active := hread.active.resolve_left (by simp [hdirty])
  getDatabase := hread.getDatabase
  isMVCC := by simpa [hdirty] using hread.isMVCC.symm
  isDirtyRead := hdirty
  exist := by
    obtain rfl := Option.some.inj hread.snapshotFor
    refine ⟨t, (tree_of_some hread.database).trans hread.tree, fun a ha => ?_⟩
    exact ((Database.ensureRequestedBlobsExist_spec hread.exist).2.1 rfl a ha).1

/-- Trying a read gives new conflicts at most to its client, in its database. -/
theorem TriedRead.conflicts {active : ClientId → Bool} (h : TriedRead m s b s') (hbooks : BooksWF s)
    (hconflict : x ∈ (s'.locks name).conflicts active d w l) :
    x ∈ (s.locks name).conflicts active d w l ∨ b = true ∧ x = m.clientId ∧ s.Fits name m := by
  -- only a database whose locks are granted matters
  have hsame : ∀ {name' od od'}, s.databases name' = some od →
      x ∈ ((s.setDatabase name' od').locks name).conflicts active d w l → od'.locks = od.locks →
      x ∈ (s.locks name).conflicts active d w l := fun {name' od od'} hod hconflict heq => by
    rw [locks_setDatabase] at hconflict
    split_ifs at hconflict with hne
    · rwa [hne, locks_of_some hod, ← heq]
    · exact hconflict
  cases h with
  | error => exact Or.inl hconflict
  | @missing name' od _ _ _ db _ hread =>
    change x ∈ ((s.setDatabase name' { od with database := db }).locks name).conflicts active d w l
      at hconflict
    exact Or.inl (hsame hread.database hconflict rfl)
  | @read name' od _ _ _ db _ hread =>
    change x ∈ ((s.setDatabase name' { od with database := db }).locks name).conflicts active d w l
      at hconflict
    exact Or.inl (hsame hread.database hconflict rfl)
  | refused hread _ hacquire =>
    obtain ⟨db', -, ⟨-, rfl⟩ | ⟨hb, -⟩⟩ := acquireLocks_eq_some hacquire
    · exact Or.inl (hsame hread.database hconflict rfl)
    · cases hb
  | @granted name' od od' snapshot t db rs hread hdirty hacquire =>
    obtain ⟨db', -, ⟨hb, -⟩ | ⟨-, ls, -, rfl⟩⟩ := acquireLocks_eq_some hacquire
    · cases hb
    change x ∈ ((s.setDatabase name' _).locks name).conflicts active d w l at hconflict
    rw [locks_setDatabase] at hconflict
    split_ifs at hconflict with hne
    · by_cases hxm : x = m.clientId
      · exact Or.inr ⟨rfl, hxm, hne ▸ hread.fits hdirty⟩
      · rw [hne, locks_of_some hread.database]
        exact Or.inl (LockBook.mem_conflicts_of_acquireLocks (hbooks _ _ hread.database) hxm hconflict)
    · exact Or.inl hconflict

/-- The client of the read has its locks: those who want them in conflict are kept from them. -/
def HasLocks (s : Server) (name : DatabaseName) (m : BlobsRead) : Prop :=
  ∃ t ls, s.tree name = some t ∧ forEachLockInMessage t m.blobs = some ls ∧
    ∀ l ∈ ls, ∀ d w, d ≠ m.clientId → m.needsWriteLock = true ∨ w = true →
      m.clientId ∈ (s.locks name).conflicts s.active d w l

/-- Locks last while nothing is released. -/
theorem Steady.hasLocks (h : Steady s s') (hm : s.HasLocks name m) : s'.HasLocks name m := by
  obtain ⟨t, ls, ht, hls, hconflict⟩ := hm
  refine ⟨t, ls, (h.tree name).trans ht, hls, fun l hl d w hd hw => ?_⟩
  rw [h.active]
  exact h.conflicts name d w l _ (hconflict l hl d w hd hw)

/-- What trying a read that fits sends: nothing, or the blobs when it is granted its locks. -/
theorem Fits.sent (hfits : s.Fits name m) (h : s.tryHandleBlobsRead m = some (b, s'))
    (hs : Healthy s) :
    b = false ∧ s'.sent = s.sent ∨ b = true ∧ s'.HasLocks name m ∧ ∃ heap p rs,
      buildBlobsReadResponse heap p m = some rs ∧
        s'.sent = s.sent ++ rs.map fun r => (m.clientId, .blobsRead r) := by
  obtain ⟨od, od', snapshot, t, db, hread, hacquire, ⟨rfl, rfl⟩ | ⟨rfl, rs, hrs, rfl⟩⟩ :=
    hfits.triedRead h
  · exact Or.inl ⟨rfl, rfl⟩
  · obtain ⟨db', ls, hlooked, hgrant, rfl⟩ := hread.grantable hfits.isDirtyRead hacquire hs
    refine Or.inr ⟨rfl, ⟨t, ls, ?_, hgrant.locks, fun l hl d w hd hw => ?_⟩, _, _, rs, hrs, rfl⟩
    · exact tree_setDatabase_self.trans hgrant.tree
    · change m.clientId ∈ LockBook.conflicts _ ((s.setDatabase name _).locks name) _ _ _
      rw [locks_setDatabase_self]
      exact LockBook.mem_conflicts_acquireLocks_self hgrant.canAcquire hfits.active hd hw hl

/-! ### Trying the reads that wait -/

/-- How often a client was told that it is the victim of a deadlock. -/
def deadlocksTold (s : Server) (c : ClientId) : ℕ :=
  s.sent.count (c, .blobsRead (.createError .deadlock))

/-- The read was answered with its blobs after `s`. -/
def AnsweredSince (s s' : Server) (m : BlobsRead) : Prop :=
  ∃ heap p rs before, buildBlobsReadResponse heap p m = some rs ∧ s.sent <+: before ∧
    before ++ rs.map (fun r => (m.clientId, Response.blobsRead r)) <+: s'.sent

/-- The read was granted its locks after `s`, and answered. -/
def GrantedSince (s s' : Server) (name : DatabaseName) (m : BlobsRead) : Prop :=
  s'.HasLocks name m ∧ AnsweredSince s s' m

/-- What was granted since a later state was granted since an earlier one. -/
theorem GrantedSince.of_prefix (h : GrantedSince s' s'' name m) (hsent : s.sent <+: s'.sent) :
    GrantedSince s s'' name m := by
  obtain ⟨hlocks, heap, p, rs, before, hrs, hbefore, hafter⟩ := h
  exact ⟨hlocks, heap, p, rs, before, hrs, hsent.trans hbefore, hafter⟩

/-- What was granted stays granted where the locks stay. -/
theorem GrantedSince.of_steady (h : GrantedSince s s' name m) (hsteady : Steady s' s'')
    (hsent : s'.sent <+: s''.sent) : GrantedSince s s'' name m := by
  obtain ⟨hlocks, heap, p, rs, before, hrs, hbefore, hafter⟩ := h
  exact ⟨hsteady.hasLocks hlocks, heap, p, rs, before, hrs, hbefore, hafter.trans hsent⟩

/-- An answer with blobs reports no deadlock. -/
theorem success_of_buildBlobsReadResponse {heap : Heap} {p : Pointer} {rs : List BlobsReadResponse}
    (h : buildBlobsReadResponse heap p m = some rs) : ∀ r ∈ rs, r.result = .success := by
  unfold buildBlobsReadResponse at h
  split at h
  · cases h
  · exact success_of_buildResponses h

/-- An answer with blobs tells nobody of a deadlock. -/
theorem count_deadlock_answer {heap : Heap} {p : Pointer} {rs : List BlobsReadResponse}
    (h : buildBlobsReadResponse heap p m = some rs) (c : ClientId) :
    (rs.map fun r => (m.clientId, Response.blobsRead r)).count
      (c, .blobsRead (.createError .deadlock)) = 0 := by
  refine List.count_eq_zero.mpr fun hmem => ?_
  obtain ⟨r, hr, heq⟩ := List.mem_map.mp hmem
  have hresult := success_of_buildBlobsReadResponse h r hr
  rw [Response.blobsRead.inj (Prod.mk.inj heq).2] at hresult
  cases hresult

/-- One read is tried: what is sent, and whether it is granted. -/
theorem Fits.told (hfits : s.Fits name m) (h : s.tryHandleBlobsRead m = some (b, s'))
    (hs : Healthy s) : s.sent <+: s'.sent ∧ (∀ c, s'.deadlocksTold c = s.deadlocksTold c) ∧
      (b = true → GrantedSince s s' name m) := by
  unfold deadlocksTold
  rcases hfits.sent h hs with ⟨rfl, hsent⟩ | ⟨rfl, hlocks, heap, p, rs, hrs, hsent⟩
  · rw [hsent]
    exact ⟨List.prefix_rfl, fun _ => rfl, fun hb => (nomatch hb)⟩
  · rw [hsent]
    refine ⟨List.prefix_append _ _, fun c => ?_, fun _ => ⟨hlocks, heap, p, rs, s.sent, hrs, ?_, ?_⟩⟩
    · rw [List.count_append, count_deadlock_answer hrs, Nat.add_zero]
    · exact List.prefix_rfl
    · rw [hsent]

/-- A pass over reads that fit: a read that does not stay is granted. -/
theorem processQueuedReads_told {qs qs' : List BlobsRead}
    (h : processQueuedReads qs s = some (qs', s')) (hs : Healthy s)
    (hfits : ∀ q ∈ qs, s.Fits name q) : s.sent <+: s'.sent ∧
      (∀ c, s'.deadlocksTold c = s.deadlocksTold c) ∧
      ∀ q ∈ qs, q ∈ qs' ∨ GrantedSince s s' name q := by
  induction qs generalizing s qs' with
  | nil =>
    cases h
    exact ⟨List.prefix_rfl, fun _ => rfl, fun _ hq => (nomatch hq)⟩
  | cons m qs ih =>
    rw [processQueuedReads] at h
    have htail : ∀ {b s₁}, s.tryHandleBlobsRead m = some (b, s₁) →
        Healthy s₁ ∧ ∀ q ∈ qs, s₁.Fits name q := fun htry =>
      ⟨healthy_of_triedRead (triedRead htry) hs, fun q hq =>
        ((triedRead htry).steady hs).fits (hfits q (List.mem_cons_of_mem _ hq))⟩
    split at h
    · cases h
    · next s₁ htry =>
      obtain ⟨h1, h2, h3⟩ := (hfits m List.mem_cons_self).told htry hs
      obtain ⟨hs₁, hfits₁⟩ := htail htry
      obtain ⟨h4, h5, h6⟩ := ih h hs₁ hfits₁
      have hsteady := (processQueuedReads_blocked h hs₁).1
      refine ⟨h1.trans h4, fun c => (h5 c).trans (h2 c), fun q hq => ?_⟩
      rcases List.mem_cons.mp hq with rfl | hq
      · exact Or.inr ((h3 rfl).of_steady hsteady h4)
      · exact (h6 q hq).imp_right fun hg => hg.of_prefix h1
    · next s₁ htry =>
      obtain ⟨⟨qs₁, s₂⟩, hnext, heq⟩ := Option.map_eq_some_iff.mp h
      cases heq
      obtain ⟨h1, h2, -⟩ := (hfits m List.mem_cons_self).told htry hs
      obtain ⟨hs₁, hfits₁⟩ := htail htry
      obtain ⟨h4, h5, h6⟩ := ih hnext hs₁ hfits₁
      refine ⟨h1.trans h4, fun c => (h5 c).trans (h2 c), fun q hq => ?_⟩
      rcases List.mem_cons.mp hq with rfl | hq
      · exact Or.inl List.mem_cons_self
      · exact (h6 q hq).imp (List.mem_cons_of_mem _) fun hg => hg.of_prefix h1

/-- A pass over reads gives no new conflicts to a client whose reads all stay, nor in another
database. -/
theorem processQueuedReads_conflicts {qs qs' : List BlobsRead}
    (h : processQueuedReads qs s = some (qs', s')) (hs : Healthy s) (hbooks : BooksWF s)
    (hnames : ∀ q ∈ qs, s.getDatabase q.clientId q.databaseId = some name')
    (hn : name = name' → (qs.map BlobsRead.clientId).Nodup)
    (hx : name = name' → ∀ q ∈ qs, q.clientId = x → q ∈ qs')
    (hconflict : x ∈ (s'.locks name).conflicts s.active d w l) :
    x ∈ (s.locks name).conflicts s.active d w l := by
  induction qs generalizing s qs' with
  | nil =>
    cases h
    exact hconflict
  | cons m qs ih =>
    rw [processQueuedReads] at h
    have hn' := fun heq => List.nodup_cons.mp (hn heq)
    have htail : ∀ {b s₁}, s.tryHandleBlobsRead m = some (b, s₁) → Healthy s₁ ∧ BooksWF s₁ ∧
        s₁.active = s.active ∧
        ∀ q ∈ qs, s₁.getDatabase q.clientId q.databaseId = some name' := fun htry => by
      have hmoves : Moves .all s _ := (triedRead htry).moves hs trivial
      have hsteady := (triedRead htry).steady hs
      refine ⟨hmoves.healthy hs, hmoves.booksWF hbooks, hsteady.active, fun q hq => ?_⟩
      rw [getDatabase, hsteady.clients]
      exact hnames q (List.mem_cons_of_mem _ hq)
    split at h
    · cases h
    · next s₁ htry =>
      obtain ⟨hs₁, hbooks₁, hactive, hnames₁⟩ := htail htry
      have hsub := (processQueuedReads_keeps h).2.2.1
      have hconflict₁ : x ∈ (s₁.locks name).conflicts s.active d w l := by
        rw [← hactive] at hconflict ⊢
        exact ih h hs₁ hbooks₁ hnames₁ (fun heq => (hn' heq).2)
          (fun heq q hq => hx heq q (List.mem_cons_of_mem _ hq)) hconflict
      refine ((triedRead htry).conflicts hbooks hconflict₁).resolve_right ?_
      rintro ⟨-, hxm, hfits⟩
      -- the read of the client that is granted would have to stay
      have heq := Option.some.inj (hfits.getDatabase.symm.trans (hnames m List.mem_cons_self))
      have hm := hsub.subset (hx heq m List.mem_cons_self hxm.symm)
      exact (hn' heq).1 (List.mem_map_of_mem hm)
    · next s₁ htry =>
      obtain ⟨⟨qs₁, s₂⟩, hnext, heq⟩ := Option.map_eq_some_iff.mp h
      cases heq
      obtain ⟨hs₁, hbooks₁, hactive, hnames₁⟩ := htail htry
      have hconflict₁ : x ∈ (s₁.locks name).conflicts s.active d w l := by
        rw [← hactive] at hconflict ⊢
        refine ih hnext hs₁ hbooks₁ hnames₁ (fun heq => (hn' heq).2) (fun heq q hq hqx => ?_) hconflict
        rcases List.mem_cons.mp (hx heq q (List.mem_cons_of_mem _ hq) hqx) with rfl | hq'
        · exact absurd (List.mem_map_of_mem hq) (hn' heq).1
        · exact hq'
      refine ((triedRead htry).conflicts hbooks hconflict₁).resolve_right ?_
      rintro ⟨hb, -⟩
      cases hb

/-- What holds of a database in every run, and that each client has at most one read in its
queue. -/
structure Orderly (s : Server) (name : DatabaseName) : Prop where
  healthy : Healthy s
  books : BooksWF s
  fit : AllFit s
  nodup : ((s.queue name).map BlobsRead.clientId).Nodup

/-- Moves that only take reads from the queue keep the database in order. -/
theorem Orderly.moves (h : Orderly s name) (hmoves : Moves .noCommits s s')
    (hsub : (s'.queue name).Sublist (s.queue name)) : Orderly s' name :=
  ⟨hmoves.healthy h.healthy, hmoves.booksWF h.books, hmoves.allFit h.healthy h.fit,
    h.nodup.sublist (hsub.map _)⟩

/-- What trying reads that wait does for a database: those that leave the queue are granted, and
the clients of the others have no more locks than before. -/
structure Progresses (name : DatabaseName) (s s' : Server) : Prop where
  wanes : Wanes name s s'
  orderly : Orderly s' name
  sent : s.sent <+: s'.sent
  told : ∀ c, s'.deadlocksTold c = s.deadlocksTold c
  granted : ∀ q ∈ s.queue name, q ∈ s'.queue name ∨ GrantedSince s s' name q

/-- Trying the reads of a queue grants some of them, in their order. -/
theorem tryProcessQueuedReads_progresses (h : s.tryProcessQueuedReads name' = some s')
    (ho : Orderly s name) : Progresses name s s' := by
  have hmoves : Moves .noCommits s s' := moves_tryProcessQueuedReads h ho.healthy trivial
  obtain ⟨hsteady, -, -, -⟩ := tryProcessQueuedReads_blocked h ho.healthy
  obtain ⟨-, hother, hself, -⟩ := tryProcessQueuedReads_keeps h
  have hsub : (s'.queue name).Sublist (s.queue name) := by
    by_cases hne : name = name'
    · exact hne ▸ hself
    · rw [hother name hne]
  unfold tryProcessQueuedReads at h
  split at h
  · cases h
  · next od hod =>
    split at h
    · cases h
    · next qs s₁ hprocess =>
      have hfits : ∀ q ∈ od.queuedReads, s.Fits name' q := fun q hq =>
        ho.fit name' q (by rwa [queue_of_some hod])
      obtain ⟨hsent, htold, hgranted⟩ := processQueuedReads_told hprocess ho.healthy hfits
      obtain ⟨od₁, od₂, hod₁, hod₂, rfl⟩ := updateDatabase_eq_some_iff.mp h
      obtain rfl := Option.some.inj hod₂
      have hqueued : Steady s₁ (s₁.setDatabase name' { od₁ with queuedReads := qs }) :=
        .queued hod₁
      have hlocks : (s₁.setDatabase name' { od₁ with queuedReads := qs }).locks name =
          s₁.locks name := by
        rw [locks_setDatabase]
        split_ifs with hne
        · rw [hne, locks_of_some hod₁]
        · rfl
      have hn : name = name' → (od.queuedReads.map BlobsRead.clientId).Nodup := fun heq => by
        have := ho.nodup
        rwa [heq, queue_of_some hod] at this
      refine ⟨⟨hsteady.tree name, hsub, fun x hw d w l hx => ?_⟩, ho.moves hmoves hsub, hsent, htold,
        fun q hq => ?_⟩
      · rw [hlocks, hsteady.active] at hx
        refine processQueuedReads_conflicts hprocess ho.healthy ho.books
          (fun q hq => (hfits q hq).getDatabase) hn
          (fun heq q hq hqx => ?_) hx
        subst heq
        obtain ⟨q', hq', hqx'⟩ := hw
        rw [queue_setDatabase_self] at hq'
        have hsub' := (processQueuedReads_keeps hprocess).2.2.1
        exact List.inj_on_of_nodup_map (hn rfl) hq (hsub'.subset hq') (hqx.trans hqx'.symm) ▸ hq'
      · by_cases hne : name = name'
        · subst hne
          rw [queue_of_some hod] at hq
          rw [queue_setDatabase_self]
          exact (hgranted q hq).imp_right fun hg => hg.of_steady hqueued List.prefix_rfl
        · left
          rwa [hother name hne]

/-- Trying the reads of several databases makes progress in each. -/
theorem foldlM_tryProcessQueuedReads_progresses {names : List DatabaseName}
    (h : names.foldlM tryProcessQueuedReads s = some s') (ho : Orderly s name) :
    Progresses name s s' := by
  induction names generalizing s with
  | nil =>
    obtain rfl := Option.some.inj h
    exact ⟨.refl name s, ho, List.prefix_rfl, fun _ => rfl, fun _ hq => Or.inl hq⟩
  | cons name₁ names ih =>
    rw [List.foldlM_cons] at h
    obtain ⟨s₁, h₁, h₂⟩ := Option.bind_eq_some_iff.mp h
    have hp := tryProcessQueuedReads_progresses h₁ ho
    have hp' := ih h₂ hp.orderly
    have hsteady := (foldlM_tryProcessQueuedReads_blocked h₂ hp.orderly.healthy).1
    refine ⟨hp.wanes.trans hp'.wanes, hp'.orderly, hp.sent.trans hp'.sent,
      fun c => (hp'.told c).trans (hp.told c), fun q hq => ?_⟩
    rcases hp.granted q hq with hq | hg
    · exact (hp'.granted q hq).imp_right fun hg => hg.of_prefix hp.sent
    · exact Or.inr (hg.of_steady hsteady hp'.sent)

/-! ### The victims -/

/-- What the end of a client's transaction keeps: the trees, the locks, and who else is in a
transaction. -/
theorem kept_clientAbort (h : s.clientAbortTransaction c false = some s') :
    (∀ name, s'.tree name = s.tree name ∧ s'.locks name = s.locks name) ∧
      ∀ d, s'.active d = (s.active d && d != c) := by
  obtain ⟨s₀, hleave, rfl⟩ := Option.map_eq_some_iff.mp h
  have hkept := (foldlM_leaveDatabase hleave).1
  have hlocks : ∀ name, s₀.locks name = s.locks name := fun name =>
    foldlM_induction (P := fun s' => s'.locks name = s.locks name) hleave rfl
      fun _ _ _ _ hstep h1 => (locks_leaveDatabase hstep name).trans h1
  refine ⟨fun name => ⟨tree_foldlM_leaveDatabase hleave name, hlocks name⟩, fun d => ?_⟩
  by_cases hd : d = c
  · rw [hd, active, clients_setClient_self, bne_self_eq_false, Bool.and_false]
  · rw [active, clients_setClient_of_ne hd, hkept.clients, bne_iff_ne.mpr hd, Bool.and_true]
    rfl

/-- The locks a client keeps when its transaction ends do not keep others from theirs any more,
and those of the other clients do. -/
theorem mem_conflicts_clientAbort (h : s.clientAbortTransaction c false = some s') :
    x ∈ (s'.locks name).conflicts s'.active d w l ↔
      x ∈ (s.locks name).conflicts s.active d w l ∧ x ≠ c := by
  obtain ⟨hkept, hactive⟩ := kept_clientAbort h
  rw [(hkept name).2]
  constructor
  · intro hx
    have hx' := (LockBook.ne_of_mem_conflicts hx).2
    rw [hactive, Bool.and_eq_true, bne_iff_ne] at hx'
    exact ⟨LockBook.mem_conflicts_of_active hx hx'.1, hx'.2⟩
  · rintro ⟨hx, hxc⟩
    refine LockBook.mem_conflicts_of_active hx ?_
    rw [hactive, (LockBook.ne_of_mem_conflicts hx).2, bne_iff_ne.mpr hxc]
    rfl

/-- The locks of other clients last when a transaction ends. -/
theorem HasLocks.clientAbort (h : s.clientAbortTransaction c false = some s')
    (hm : s.HasLocks name m) (hne : m.clientId ≠ c) : s'.HasLocks name m := by
  obtain ⟨t, ls, ht, hls, hconflict⟩ := hm
  refine ⟨t, ls, ((kept_clientAbort h).1 name).1.trans ht, hls, fun l hl d w hd hw => ?_⟩
  exact (mem_conflicts_clientAbort h).mpr ⟨hconflict l hl d w hd hw, hne⟩

/-- The end of the transactions of victims: their reads are gone, and the others are tried. -/
structure Aborts (name : DatabaseName) (vs : List ClientId) (s s' : Server) : Prop where
  usersWF : UsersWF s'
  wanes : Wanes name s s'
  orderly : Orderly s' name
  queue : ∀ name, (s'.queue name).Sublist (s.queue name)
  sent : s.sent <+: s'.sent
  told : ∀ c, s'.deadlocksTold c = s.deadlocksTold c + vs.count c
  hasLocks : ∀ q, q.clientId ∉ vs → s.HasLocks name q → s'.HasLocks name q
  granted : ∀ q ∈ s.queue name, q.clientId ∉ vs → q ∈ s'.queue name ∨ GrantedSince s s' name q
  idle : ∀ v ∈ vs, s'.Idle v

/-- Who is told of a deadlock. -/
theorem deadlocksTold_sendError :
    (s.sendError c .deadlock).deadlocksTold d = s.deadlocksTold d + [c].count d := by
  unfold deadlocksTold
  change (s.sent ++ [_]).count _ = _
  rw [List.count_append, List.count_singleton, List.count_singleton]
  refine congrArg _ ?_
  by_cases hcd : c = d
  · rw [hcd]
    simp
  · rw [if_neg (by simp [hcd]), if_neg (by simp [hcd])]

/-- Aborting one victim. -/
theorem abortVictim_aborts (h : s.abortVictim c = some s') (hactive : s.active c = true)
    (hwf : UsersWF s) (ho : Orderly s name) : Aborts name [c] s s' ∧
      (name ∈ s.openNames c → ∀ q ∈ s'.queue name, s'.Blocked name q) := by
  have he := abortVictim_ended h hactive
  have hwf₀ : UsersWF (s.sendError c .deadlock) := hwf.send _
  change (s.sendError c .deadlock).abortTransaction c false = some s' at h
  rw [abortTransaction, if_pos (show (s.sendError c .deadlock).active c = true from hactive)] at h
  split at h
  · cases h
  · next s₁ hs₁ =>
    have ho₀ : Orderly (s.sendError c .deadlock) name :=
      ho.moves (.single (.send c _)) (List.Sublist.refl _)
    have hmoves : Moves .noCommits (s.sendError c .deadlock) s₁ :=
      moves_clientAbortTransaction hs₁ hactive hwf₀ ho₀.healthy trivial
    have hkept₁ := (kept_clientAbort hs₁).1 name
    -- only the locks of the victim are taken away
    have hlocks₁ : ∀ q, q.clientId ≠ c → s.HasLocks name q → s₁.HasLocks name q :=
      fun q hqc hq => HasLocks.clientAbort (s := s.sendError c .deadlock) hs₁ hq hqc
    have hconflicts₁ : ∀ x d w l, x ∈ (s₁.locks name).conflicts s₁.active d w l →
        x ∈ (s.locks name).conflicts s.active d w l := fun x d w l hx =>
      ((mem_conflicts_clientAbort (s := s.sendError c .deadlock) hs₁).mp hx).1
    obtain ⟨s₀, hleave, heq⟩ := Option.map_eq_some_iff.mp hs₁
    obtain ⟨hkept, hsent₀, hqueue⟩ := foldlM_leaveDatabase hleave
    have hsent₁ : s₁.sent = (s.sendError c .deadlock).sent := by
      rw [← heq]
      exact hsent₀
    have hqueue₁ : s₁.queue name = s₀.queue name := by
      rw [← heq]
      rfl
    -- only its reads leave the queue
    have hsub₁ : (s₁.queue name).Sublist (s.queue name) := by
      rw [hqueue₁, hqueue]
      split_ifs
      · exact List.filter_sublist
      · exact List.Sublist.refl _
    have hwanes : Wanes name s s₁ :=
      ⟨hkept₁.1, hsub₁, fun x _ d w l hx => hconflicts₁ x d w l hx⟩
    have ho₁ : Orderly s₁ name := ho₀.moves hmoves hsub₁
    -- the other reads are tried again
    have hp := foldlM_tryProcessQueuedReads_progresses h ho₁
    obtain ⟨hsteady, -, -, hblocked⟩ := foldlM_tryProcessQueuedReads_blocked h ho₁.healthy
    have hnames : s₁.openNames c = s.openNames c := by
      rw [← heq, openNames, clients_setClient_self, openNames, hkept.clients]
      rfl
    have hprefix : s.sent <+: s₁.sent := by
      rw [hsent₁]
      exact List.prefix_append _ _
    refine ⟨⟨hwf₀.ended he, hwanes.trans hp.wanes, hp.orderly, he.queue, hprefix.trans hp.sent,
      fun d => ?_, fun q hqc hq => ?_, fun q hq hqc => ?_, fun v hv => ?_⟩, fun hn q hq => ?_⟩
    · rw [hp.told, deadlocksTold, hsent₁]
      exact deadlocksTold_sendError
    · rw [List.mem_singleton] at hqc
      exact hsteady.hasLocks (hlocks₁ q hqc hq)
    · rw [List.mem_singleton] at hqc
      have hq₁ : q ∈ s₁.queue name := by
        rw [hqueue₁, hqueue]
        split_ifs
        · exact List.mem_filter.mpr ⟨hq, by simpa using hqc⟩
        · exact hq
      exact (hp.granted q hq₁).imp_right fun hg => hg.of_prefix hprefix
    · rw [List.mem_singleton.mp hv]
      exact hwf₀.not_waits_of_ended he
    · exact hblocked name (hnames ▸ hn) q hq name
        (ho₁.fit name q (hp.wanes.queue.subset hq)).getDatabase

theorem Aborts.refl (hwf : UsersWF s) (ho : Orderly s name) : Aborts name [] s s :=
  ⟨hwf, .refl name s, ho, fun _ => List.Sublist.refl _, List.prefix_rfl, fun _ => rfl,
    fun _ _ hq => hq, fun _ hq _ => Or.inl hq, fun _ hv => (nomatch hv)⟩

/-- Aborting some victims and then others. -/
theorem Aborts.trans {us vs : List ClientId} (h : Aborts name us s s') (h' : Aborts name vs s' s'') :
    Aborts name (us ++ vs) s s'' where
  usersWF := h'.usersWF
  wanes := h.wanes.trans h'.wanes
  orderly := h'.orderly
  queue name := (h'.queue name).trans (h.queue name)
  sent := h.sent.trans h'.sent
  told c := by rw [h'.told, h.told, List.count_append, Nat.add_assoc]
  hasLocks q hq hlocks := by
    rw [List.mem_append, not_or] at hq
    exact h'.hasLocks q hq.2 (h.hasLocks q hq.1 hlocks)
  granted q hq hqc := by
    rw [List.mem_append, not_or] at hqc
    rcases h.granted q hq hqc.1 with hq | ⟨hlocks, heap, p, rs, before, hrs, hbefore, hafter⟩
    · exact (h'.granted q hq hqc.2).imp_right fun hg => hg.of_prefix h.sent
    · exact Or.inr ⟨h'.hasLocks q hqc.2 hlocks, heap, p, rs, before, hrs, hbefore,
        hafter.trans h'.sent⟩
  idle v hv := by
    rcases List.mem_append.mp hv with hv | hv
    · exact (h.idle v hv).of_sublist h'.queue
    · exact h'.idle v hv

/-- The transactions of victims that wait for one other client end. What waits in the database
afterwards is blocked. -/
theorem foldlM_abortVictim_aborts {vs : List ClientId} (h : vs.foldlM abortVictim s = some s')
    (hn : vs.Nodup) (hwf : UsersWF s) (ho : Orderly s name) (hd : d ∉ vs)
    (hvs : ∀ v ∈ vs, s.WaitsOn name v d) :
    Aborts name vs s s' ∧ (vs ≠ [] → ∀ q ∈ s'.queue name, s'.Blocked name q) := by
  induction vs generalizing s with
  | nil =>
    obtain rfl := Option.some.inj h
    exact ⟨.refl hwf ho, fun hne => absurd rfl hne⟩
  | cons v vs ih =>
    rw [List.foldlM_cons] at h
    obtain ⟨s₁, h₁, h₂⟩ := Option.bind_eq_some_iff.mp h
    obtain ⟨hv, hn⟩ := List.nodup_cons.mp hn
    rw [List.mem_cons, not_or] at hd
    obtain ⟨q, hq, hqv, -⟩ := hvs v List.mem_cons_self
    have hactive : s.active v = true := hqv ▸ (ho.fit name q hq).active
    obtain ⟨habort, hblocked⟩ := abortVictim_aborts h₁ hactive hwf ho
    obtain ⟨haborts, hblocked'⟩ := ih h₂ hn habort.usersWF habort.orderly hd.2 fun u hu => by
      obtain ⟨q', hq', hqu, hblocked⟩ := hvs u (List.mem_cons_of_mem _ hu)
      obtain ⟨h3, h4⟩ := abortVictim_waits h₁ hactive hwf ho.healthy ho.fit hq' hblocked hd.1
        fun heq => hv (heq ▸ hqu ▸ hu)
      exact ⟨q', h3, hqu, h4⟩
    refine ⟨habort.trans haborts, fun _ => ?_⟩
    cases vs with
    | nil =>
      obtain rfl := Option.some.inj h₂
      exact hblocked (hwf.waits v name ⟨q, hq, hqv⟩)
    | cons u us => exact hblocked' (List.cons_ne_nil u us)

/-! ### A read that joins the queue -/

/-- The conflicts of a read are those who block it. -/
theorem mem_collectLockConflicts {t : Tree 3} {cs : List ClientId}
    (hod : s.databases name = some od) (ht : od.database.tree od.database.snapshot = some t)
    (h : collectLockConflicts s.active m t od = some cs) : x ∈ cs ↔ s.BlockedBy name m x := by
  obtain ⟨ls, hls, rfl⟩ := Option.map_eq_some_iff.mp h
  have htree : s.tree name = some t := (tree_of_some hod).trans ht
  rw [List.mem_flatMap]
  constructor
  · rintro ⟨l, hl, hx⟩
    rw [← locks_of_some hod] at hx
    exact ⟨t, ls, htree, hls, l, hl, hx⟩
  · rintro ⟨t', ls', ht', hls', l, hl, hx⟩
    obtain rfl := Option.some.inj (htree.symm.trans ht')
    obtain rfl := Option.some.inj (hls.symm.trans hls')
    rw [locks_of_some hod] at hx
    exact ⟨l, hl, hx⟩

/-- The search for a conflict with a client tells whether this client blocks the read. -/
theorem findLockConflictWith_eq_true {t : Tree 3} (hod : s.databases name = some od)
    (ht : od.database.tree od.database.snapshot = some t) :
    findLockConflictWith s.active q t od x = some true ↔ s.BlockedBy name q x := by
  rw [findLockConflictWith, Option.map_eq_some_iff]
  constructor
  · rintro ⟨cs, hcs, hx⟩
    exact (mem_collectLockConflicts hod ht hcs).mp (of_decide_eq_true hx)
  · intro hx
    obtain ⟨t', ls, ht', hls, -⟩ := id hx
    obtain rfl := Option.some.inj (((tree_of_some hod).trans ht).symm.trans ht')
    have hcs : collectLockConflicts s.active q t od =
        some (ls.flatMap (od.locks.conflicts s.active q.clientId q.needsWriteLock)) := by
      rw [collectLockConflicts, hls]
      rfl
    exact ⟨_, hcs, decide_eq_true ((mem_collectLockConflicts hod ht hcs).mpr hx)⟩

/-- A read has joined the queue of its database. -/
structure Joined (name : DatabaseName) (m : BlobsRead) (s s' : Server) : Prop where
  clients : s'.clients = s.clients
  tree : s'.tree name = s.tree name
  locks : s'.locks name = s.locks name
  queue : s'.queue name = s.queue name ++ [m]
  sent : s'.sent = s.sent
  others : ∀ name', name' ≠ name → s'.tree name' = s.tree name' ∧
    s'.locks name' = s.locks name' ∧ s'.queue name' = s.queue name'

namespace Joined

/-- Joining a queue ends no transaction. -/
theorem active (h : Joined name m s s') : s'.active = s.active := by
  funext c
  rw [Server.active, h.clients, Server.active]

/-- Joining a queue changes no locks. -/
theorem blockedBy (h : Joined name m s s') : s'.BlockedBy name q x ↔ s.BlockedBy name q x := by
  rw [BlockedBy, h.tree, h.locks, h.active, BlockedBy]

/-- Who waits on whom after a read has joined the queue: whom it is blocked by is added. -/
theorem waitsOn (h : Joined name m s s') : s'.WaitsOn name x y ↔
    s.WaitsOn name x y ∨ m.clientId = x ∧ s.BlockedBy name m y := by
  constructor
  · rintro ⟨q, hq, hqx, hblocked⟩
    rw [h.queue, List.mem_append, List.mem_singleton] at hq
    rcases hq with hq | rfl
    · exact Or.inl ⟨q, hq, hqx, h.blockedBy.mp hblocked⟩
    · exact Or.inr ⟨hqx, h.blockedBy.mp hblocked⟩
  · rintro (⟨q, hq, hqx, hblocked⟩ | ⟨hmx, hblocked⟩)
    · exact ⟨q, h.queue ▸ List.mem_append_left _ hq, hqx, h.blockedBy.mpr hblocked⟩
    · exact ⟨m, h.queue ▸ List.mem_append_right _ (List.mem_singleton_self m), hmx,
        h.blockedBy.mpr hblocked⟩

/-- Two clients that wait for each other now are in a deadlock the read has closed. -/
theorem mutual_cases (h : Joined name m s s') (hfree : s.DeadlockFree name)
    (hxy : s'.WaitsOn name x y) (hyx : s'.WaitsOn name y x) :
    m.clientId = x ∧ s.InDeadlock name m y ∨ m.clientId = y ∧ s.InDeadlock name m x := by
  rcases h.waitsOn.mp hxy with hxy | ⟨rfl, hy⟩
  · rcases h.waitsOn.mp hyx with hyx | ⟨rfl, hx⟩
    · exact absurd hyx (hfree x y hxy)
    · exact Or.inr ⟨rfl, hx, hxy⟩
  · rcases h.waitsOn.mp hyx with hyx | ⟨hmy, -⟩
    · exact Or.inl ⟨rfl, hy, hyx⟩
    · exact absurd hmy.symm hy.active.1

end Joined

/-- A read that is refused its locks has changed no lock, and nothing was sent. -/
theorem TriedRead.kept_locks (h : TriedRead m s false s') :
    s'.sent = s.sent ∧ ∀ name, s'.locks name = s.locks name := by
  cases h with
  | @refused name' od od' snapshot t db hread hdirty hacquire =>
    obtain ⟨db', -, ⟨-, rfl⟩ | ⟨hb, -⟩⟩ := acquireLocks_eq_some hacquire
    · refine ⟨rfl, fun name => ?_⟩
      rw [locks_setDatabase]
      split_ifs with hne
      · rw [hne, locks_of_some hread.database]
      · rfl
    · cases hb

/-- A read that is refused its locks joins the queue. The victims are the clients it is in a
deadlock with, or its own client. -/
theorem handleBlobsRead_joins {s₁ : Server} (h : s.handleBlobsRead m = some s') (hs : Healthy s)
    (hname : s.getDatabase m.clientId m.databaseId = some name)
    (htry : s.tryHandleBlobsRead m = some (false, s₁)) (htimeout : m.lockTimeoutMs ≠ 0) :
    ∃ (found : List ClientId) (s₂ : Server), Joined name m s s₂ ∧ s₂.Blocked name m ∧
      Moves .noCommits s s₂ ∧ (UsersWF s → UsersWF s₂) ∧ found.Nodup ∧
      (∀ x, x ∈ found ↔ s.InDeadlock name m x) ∧
      ((∃ x ∈ found, (s.clients m.clientId).transactionPriority ≤
          (s.clients x).transactionPriority) ∧ s₂.abortVictim m.clientId = some s' ∨
        (∀ x ∈ found, (s.clients x).transactionPriority <
          (s.clients m.clientId).transactionPriority) ∧
          found.foldlM abortVictim s₂ = some s') := by
  have htried := triedRead htry
  have hclients : s₁.clients = s.clients := (tried htry).kept.clients
  have hname₁ : s₁.getDatabase m.clientId m.databaseId = some name := by
    rw [getDatabase, hclients]
    exact hname
  unfold handleBlobsRead at h
  rw [htry] at h
  dsimp only at h
  rw [if_neg htimeout, hname₁] at h
  dsimp only at h
  split at h
  · cases h
  · next found s₂ hcheck =>
    have hvictims : findVictims m s = some (if found.any fun c =>
        (s₂.clients m.clientId).transactionPriority ≤ (s₂.clients c).transactionPriority
        then [m.clientId] else found, s₂) := by
      rw [findVictims, htry]
      simp only [if_neg htimeout, hname₁, hcheck, Option.map_some]
    obtain ⟨od, t, blockedBy, hod, ht, hblocked, hfound, rfl⟩ :=
      queueReadCheckDeadlock_eq_some hcheck
    obtain ⟨hn, hmem⟩ := deadlocks_eq_some hfound List.nodup_nil
    obtain ⟨hsent₁, hlocks₁⟩ := htried.kept_locks
    have htree₁ := (htried.steady hs).tree name
    have hqueue₁ : s₁.queue name = s.queue name := (tried htry).queue name
    -- the try that failed changed no lock, so who blocks whom is as before
    have hblocked₁ : ∀ {q x}, s₁.BlockedBy name q x ↔ s.BlockedBy name q x := fun {q x} => by
      rw [BlockedBy, htree₁, hlocks₁, (htried.steady hs).active, BlockedBy]
    set s₂ := s₁.setDatabase name { od with queuedReads := od.queuedReads ++ [m] } with hs₂
    have hjoined : Joined name m s s₂ := by
      refine ⟨hclients, ?_, ?_, ?_, hsent₁, fun name' hne => ⟨?_, ?_, ?_⟩⟩
      · rw [hs₂, tree_setDatabase_self, ← htree₁, tree_of_some hod]
      · rw [hs₂, locks_setDatabase_self, ← hlocks₁, locks_of_some hod]
      · rw [hs₂, queue_setDatabase_self, ← hqueue₁, queue_of_some hod]
      · exact (tree_setDatabase_of_ne hne).trans ((htried.steady hs).tree name')
      · exact (locks_setDatabase_of_ne hne).trans (hlocks₁ name')
      · exact (queue_setDatabase_of_ne hne).trans ((tried htry).queue name')
    refine ⟨found, s₂, hjoined, (Steady.queued hod).blocked (htried.blocked hs hname),
      (foundVictims hvictims).moves hs trivial, fun hwf => ((foundVictims hvictims).waiting hwf).1,
      hn, fun x => ?_, ?_⟩
    · rw [hmem, mem_collectLockConflicts hod ht hblocked, hblocked₁]
      simp only [findLockConflictWith_eq_true hod ht, hblocked₁, List.not_mem_nil, false_or]
      rw [← queue_of_some hod, hqueue₁]
      rfl
    · rw [hjoined.clients] at h
      -- the client itself is the victim unless its priority is above all others
      cases hf : found with
      | nil =>
        rw [hf, List.isEmpty_nil, if_pos rfl] at h
        exact Or.inr ⟨fun x hx => absurd hx List.not_mem_nil, h⟩
      | cons v vs =>
        rw [hf, List.isEmpty_cons, if_neg (by simp)] at h
        split_ifs at h with hany
        · rw [List.any_eq_true] at hany
          obtain ⟨x, hx, hle⟩ := hany
          exact Or.inl ⟨⟨x, hx, of_decide_eq_true hle⟩, h⟩
        · refine Or.inr ⟨fun x hx => lt_of_not_ge fun hle => hany ?_, h⟩
          exact List.any_eq_true.mpr ⟨x, hx, decide_eq_true hle⟩

/-! ### Resolved deadlocks -/

/-- The transactions of the clients ended because of a deadlock: each was told so once and has no
read left that waits, and nothing of this happened to the others. -/
structure DeadlockVictims (vs : List ClientId) (s s' : Server) : Prop where
  aborted : ∀ v ∈ vs, s.active v = true
  active : ∀ c, s'.active c = (s.active c && decide (c ∉ vs))
  told : ∀ c, s'.deadlocksTold c = s.deadlocksTold c + if c ∈ vs then 1 else 0
  idle : ∀ v ∈ vs, s'.Idle v

/-- The victims are those who wait directly on the client that joined, and it on them. -/
theorem Joined.deadlockVictims {s₂ : Server} {vs : List ClientId} (h : Joined name m s s₂)
    (haborts : Aborts name vs s₂ s') (hfold : vs.foldlM abortVictim s₂ = some s') (hn : vs.Nodup)
    (hactive : ∀ v ∈ vs, s.active v = true) (hwf : UsersWF s₂) : DeadlockVictims vs s s' := by
  obtain ⟨-, hothers, hvictims⟩ := foldlM_abortVictim hfold hn (h.active.symm ▸ hactive) hwf
  refine ⟨hactive, fun c => ?_, fun c => ?_, haborts.idle⟩
  · by_cases hc : c ∈ vs
    · rw [Server.active, hvictims c hc, decide_eq_false (not_not_intro hc), Bool.and_false]
    · rw [Server.active, hothers c hc, h.clients, decide_eq_true hc, Bool.and_true]
      rfl
  · have htold : s₂.deadlocksTold c = s.deadlocksTold c := by
      rw [deadlocksTold, h.sent, deadlocksTold]
    rw [haborts.told, htold]
    split_ifs with hc
    · rw [List.count_eq_one_of_mem hn hc]
    · rw [List.count_eq_zero_of_not_mem hc]

/-- When the transactions of the clients ended which the read is in a deadlock with, or that of its
own client, no two clients wait for each other. -/
theorem Joined.deadlockFree {s₂ : Server} {vs : List ClientId} (h : Joined name m s s₂)
    (haborts : Aborts name vs s₂ s') (hfree : s.DeadlockFree name)
    (hvs : m.clientId ∈ vs ∨ ∀ x, s.InDeadlock name m x → x ∈ vs) : s'.DeadlockFree name := by
  intro x y hxy hyx
  obtain ⟨hxy₂, hyx₂⟩ := haborts.wanes.mutual_before hxy hyx
  rcases h.mutual_cases hfree hxy₂ hyx₂ with ⟨rfl, hy⟩ | ⟨rfl, hx⟩
  · rcases hvs with hm | hvs
    · exact haborts.idle _ hm name hxy.waits
    · exact haborts.idle _ (hvs y hy) name hyx.waits
  · rcases hvs with hm | hvs
    · exact haborts.idle _ hm name hyx.waits
    · exact haborts.idle _ (hvs x hx) name hxy.waits

/-- In every run the queues, locks and databases are well formed. -/
theorem run_keeps {es : List Event} (h : run es s = some s') (hwf : UsersWF s) (hs : Healthy s)
    (hfit : AllFit s) (hbooks : BooksWF s) :
    UsersWF s' ∧ Healthy s' ∧ AllFit s' ∧ BooksWF s' := by
  induction es generalizing s with
  | nil =>
    obtain rfl := Option.some.inj h
    exact ⟨hwf, hs, hfit, hbooks⟩
  | cons e es ih =>
    rw [run] at h
    split_ifs at h with hconnected
    split at h
    · cases h
    · next s₁ hs₁ =>
      have hstep : Step s e s₁ := by
        refine ⟨fun c hc => ?_, hs₁⟩
        rw [Option.mem_def] at hc
        rwa [hc] at hconnected
      have hmoves : Moves .all s s₁ := hstep.moves hwf hs (fun _ => trivial)
        (fun _ => trivial) (fun _ => trivial) (commitsOrderly_all e)
      exact ih h (hstep.usersWF hwf) (hmoves.healthy hs) (hstep.allFit hwf hs hfit)
        (hmoves.booksWF hbooks)

/-- A read that has to wait in a database in which no two clients wait for each other, and in whose
queue each client has at most one read with it. Afterwards no two clients wait for each other
there. Either the transaction of the read's client ended, and the priority of a client it was in a
deadlock with is not smaller; or those of all clients did that it was in a deadlock with, their
priorities are smaller, and the read is granted its locks, or blocked by clients that do not wait
for its client. -/
theorem handleBlobsRead_resolves {files : DatabaseName → Option FileContent} {delay : ℕ}
    {es : List Event} {s₁ : Server} (hstart : Healthy (start files delay))
    (hrun : run es (start files delay) = some s)
    (hname : s.getDatabase m.clientId m.databaseId = some name)
    (htry : s.tryHandleBlobsRead m = some (false, s₁)) (htimeout : m.lockTimeoutMs ≠ 0)
    (hone : ((s.queue name ++ [m]).map BlobsRead.clientId).Nodup) (hfree : s.DeadlockFree name)
    (h : s.handleBlobsRead m = some s') :
    s'.DeadlockFree name ∧
      (DeadlockVictims [m.clientId] s s' ∧ (∃ x, s.InDeadlock name m x ∧
        (s.clients m.clientId).transactionPriority ≤ (s.clients x).transactionPriority) ∨
      ∃ vs, DeadlockVictims vs s s' ∧ (∀ x, x ∈ vs ↔ s.InDeadlock name m x) ∧
        (∀ v ∈ vs, (s.clients v).transactionPriority <
          (s.clients m.clientId).transactionPriority) ∧
        (GrantedSince s s' name m ∨ m ∈ s'.queue name ∧ s'.Blocked name m ∧
          ∀ x, s'.BlockedBy name m x → ¬s'.WaitsOn name x m.clientId)) := by
  obtain ⟨hwf, hs, hfit, hbooks⟩ := run_keeps hrun (usersWF_start files delay) hstart
    (fun _ _ hq => (nomatch hq)) (booksWF_start files delay)
  obtain ⟨vs, s₂, hjoined, hblocked, hmoves, hwf₂, hn, hvs, hcases⟩ :=
    handleBlobsRead_joins h hs hname htry htimeout
  have ho₂ : Orderly s₂ name := ⟨hmoves.healthy hs, hmoves.booksWF hbooks, hmoves.allFit hs hfit,
    by rwa [hjoined.queue]⟩
  have hactive : s.active m.clientId = true := hjoined.active ▸ hblocked.fits.active
  rcases hcases with ⟨⟨x, hx, hle⟩, habort⟩ | ⟨hlt, hfold⟩
  · have hfold : [m.clientId].foldlM abortVictim s₂ = some s' := by
      rw [List.foldlM_cons, habort]
      rfl
    have haborts := (abortVictim_aborts habort hblocked.fits.active (hwf₂ hwf) ho₂).1
    refine ⟨hjoined.deadlockFree haborts hfree (Or.inl (List.mem_singleton_self _)), Or.inl ⟨?_, x,
      (hvs x).mp hx, hle⟩⟩
    exact hjoined.deadlockVictims haborts hfold (List.nodup_singleton _)
      (fun v hv => List.mem_singleton.mp hv ▸ hactive) (hwf₂ hwf)
  · have hnot : m.clientId ∉ vs := fun hm => ((hvs _).mp hm).1.active.1 rfl
    obtain ⟨haborts, hstay⟩ := foldlM_abortVictim_aborts hfold hn (hwf₂ hwf) ho₂ hnot fun v hv =>
      hjoined.waitsOn.mpr (Or.inl ((hvs v).mp hv).2)
    have hfree' := hjoined.deadlockFree haborts hfree (Or.inr fun x hx => (hvs x).mpr hx)
    refine ⟨hfree', Or.inr ⟨vs, ?_, hvs, hlt, ?_⟩⟩
    · exact hjoined.deadlockVictims haborts hfold hn (fun v hv => ((hvs v).mp hv).1.active.2)
        (hwf₂ hwf)
    · have hm₂ : m ∈ s₂.queue name := hjoined.queue ▸ List.mem_append_right _ List.mem_cons_self
      rcases haborts.granted m hm₂ hnot with hm | hgranted
      · refine Or.inr ⟨hm, ?_, fun x hx hwaits => hfree' m.clientId x ⟨m, hm, rfl, hx⟩ hwaits⟩
        cases hnil : vs with
        | nil =>
          rw [hnil] at hfold
          obtain rfl := Option.some.inj hfold
          exact hblocked
        | cons v us => exact hstay (hnil ▸ List.cons_ne_nil v us) m hm
      · exact Or.inl (hgranted.of_prefix (hjoined.sent ▸ List.prefix_rfl))

/-! ### Runs with deadlocks -/

/-- Who waits in the database, and for whom. -/
def waiters (s : Server) (name : DatabaseName) : List (ClientId × ClientId) :=
  match s.databases name, s.tree name with
  | some od, some t => od.queuedReads.flatMap fun q =>
    ((collectLockConflicts s.active q t od).getD []).map (q.clientId, ·)
  | _, _ => []

/-- The pairs are those of the clients that wait on each other. -/
theorem mem_waiters : (x, y) ∈ s.waiters name ↔ s.WaitsOn name x y := by
  unfold waiters
  constructor
  · intro h
    split at h
    · next od t hod ht =>
      rw [tree_of_some hod] at ht
      obtain ⟨q, hq, hmem⟩ := List.mem_flatMap.mp h
      obtain ⟨z, hz, heq⟩ := List.mem_map.mp hmem
      obtain ⟨rfl, rfl⟩ := Prod.mk.inj heq
      cases hcs : collectLockConflicts s.active q t od with
      | none =>
        rw [hcs] at hz
        cases hz
      | some cs =>
        rw [hcs] at hz
        exact ⟨q, queue_of_some hod ▸ hq, rfl, (mem_collectLockConflicts hod ht hcs).mp hz⟩
    · cases h
  · rintro ⟨q, hq, rfl, hblocked⟩
    obtain ⟨t, ls, htree, -⟩ := id hblocked
    obtain ⟨od, hod, ht⟩ := Option.bind_eq_some_iff.mp htree
    rw [queue_of_some hod] at hq
    obtain ⟨cs, hcs, hy⟩ := Option.map_eq_some_iff.mp
      ((findLockConflictWith_eq_true hod ht).mpr hblocked)
    simp only [hod, htree]
    refine List.mem_flatMap.mpr ⟨q, hq, List.mem_map.mpr ⟨y, ?_, rfl⟩⟩
    rw [hcs]
    exact of_decide_eq_true hy

instance (s : Server) (name : DatabaseName) : Decidable (s.DeadlockFree name) :=
  decidable_of_iff (∀ p ∈ s.waiters name, (p.2, p.1) ∉ s.waiters name)
    ⟨fun h _ _ hxy hyx => h _ (mem_waiters.mpr hxy) (mem_waiters.mpr hyx),
      fun h _ hp hp' => h _ _ (mem_waiters.mp hp) (mem_waiters.mp hp')⟩

/-- The clients open the database and begin transactions with their ids as priorities. -/
def beginAll (cs : List ClientId) : List Event :=
  cs.flatMap fun c => [.connectionOpened c, .databaseOpen c (.mem 0) .createIfNotExist false,
    .transactionBegin c c.toNat []]

/-- A client wants to write one location. -/
def wants (c : ClientId) (l : BlobLocation) : BlobsRead := ⟨c, 0, .write, -1, [⟨l, 0⟩]⟩

/-- Two clients would wait for each other. The transaction of the first one ends, as its priority is
smaller. -/
theorem handleBlobsRead_resolves_two : ∃ es s s', run es (start (fun _ => none) 0) = some s ∧
    s.handleBlobsRead (wants 2 ⟨0, 0, 0⟩) = some s' ∧ s'.DeadlockFree (.mem 0) ∧
      (DeadlockVictims [2] s s' ∧ (∃ x, s.InDeadlock (.mem 0) (wants 2 ⟨0, 0, 0⟩) x ∧
        (s.clients 2).transactionPriority ≤ (s.clients x).transactionPriority) ∨
      ∃ vs, DeadlockVictims vs s s' ∧
        (∀ x, x ∈ vs ↔ s.InDeadlock (.mem 0) (wants 2 ⟨0, 0, 0⟩) x) ∧
        (∀ v ∈ vs, (s.clients v).transactionPriority < (s.clients 2).transactionPriority) ∧
        (GrantedSince s s' (.mem 0) (wants 2 ⟨0, 0, 0⟩) ∨
          wants 2 ⟨0, 0, 0⟩ ∈ s'.queue (.mem 0) ∧ s'.Blocked (.mem 0) (wants 2 ⟨0, 0, 0⟩) ∧
            ∀ x, s'.BlockedBy (.mem 0) (wants 2 ⟨0, 0, 0⟩) x → ¬s'.WaitsOn (.mem 0) x 2)) := by
  let es : List Event := beginAll [1, 2] ++ [.blobsRead (wants 1 ⟨0, 0, 0⟩),
    .blobsRead (wants 2 ⟨0, 0, nextFreeBlobId⟩), .blobsRead (wants 1 ⟨0, 0, nextFreeBlobId⟩)]
  let m := wants 2 ⟨0, 0, 0⟩
  have hcheck : ((run es (start (fun _ => none) 0)).bind fun s =>
      (s.tryHandleBlobsRead m).bind fun r => (s.handleBlobsRead m).map fun _ =>
        decide (r.1 = false ∧ s.getDatabase m.clientId m.databaseId = some (.mem 0) ∧
          ((s.queue (.mem 0) ++ [m]).map BlobsRead.clientId).Nodup ∧
          s.DeadlockFree (.mem 0))) = some true := by
    decide +kernel
  obtain ⟨s, hs, hcheck⟩ := Option.bind_eq_some_iff.mp hcheck
  obtain ⟨⟨b, s₁⟩, htry, hcheck⟩ := Option.bind_eq_some_iff.mp hcheck
  obtain ⟨s', hs', hcheck⟩ := Option.map_eq_some_iff.mp hcheck
  obtain ⟨rfl, hname, hone, hfree⟩ := of_decide_eq_true hcheck
  exact ⟨es, s, s', hs, hs', handleBlobsRead_resolves (healthy_start 0) hs hname htry (by decide)
    hone hfree hs'⟩

/-- The client `3` waits for the clients `1` and `2`, with one read for each. When the deadlock of
these two is resolved, it gets the lock the client `2` has asked for, and waits for that client. -/
theorem not_deadlockFree_of_pipelined : ∃ es s s₁ s',
    run es (start (fun _ => none) 0) = some s ∧ s.getDatabase 2 0 = some (.mem 0) ∧
      s.tryHandleBlobsRead (wants 2 ⟨0, 0, 0⟩) = some (false, s₁) ∧
      s.DeadlockFree (.mem 0) ∧ s.handleBlobsRead (wants 2 ⟨0, 0, 0⟩) = some s' ∧
      ¬s'.DeadlockFree (.mem 0) := by
  let es : List Event := beginAll [1, 2, 3] ++ [.blobsRead (wants 1 ⟨0, 0, 0⟩),
    .blobsRead (wants 2 ⟨0, 0, nextFreeBlobId⟩), .blobsRead (wants 3 ⟨0, 0, 0⟩),
    .blobsRead (wants 3 ⟨0, 0, nextFreeBlobId⟩), .blobsRead (wants 1 ⟨0, 0, nextFreeBlobId⟩)]
  let m := wants 2 ⟨0, 0, 0⟩
  have hcheck : ((run es (start (fun _ => none) 0)).bind fun s =>
      (s.tryHandleBlobsRead m).bind fun r => (s.handleBlobsRead m).map fun s' =>
        decide (r.1 = false ∧ s.getDatabase 2 0 = some (.mem 0) ∧
          s.DeadlockFree (.mem 0) ∧ ¬s'.DeadlockFree (.mem 0))) = some true := by
    decide +kernel
  obtain ⟨s, hs, hcheck⟩ := Option.bind_eq_some_iff.mp hcheck
  obtain ⟨⟨b, s₁⟩, htry, hcheck⟩ := Option.bind_eq_some_iff.mp hcheck
  obtain ⟨s', hs', hcheck⟩ := Option.map_eq_some_iff.mp hcheck
  obtain ⟨rfl, hname, hfree, hnot⟩ := of_decide_eq_true hcheck
  exact ⟨es, s, s₁, s', hs, hname, htry, hfree, hs', hnot⟩

end Server

end BlobsDb
