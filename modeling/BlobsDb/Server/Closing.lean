import BlobsDb.ForMathlib.GuardedRun
import BlobsDb.Server.Answers
import BlobsDb.Server.Counting

/-!
# When a database is closed

The server counts who uses a database and who reads from its kept snapshot, and closes it when
nobody uses it any more. `ReferenceCounts` tells that the counts are those of the entries in the
clients' lists, and `Closes` names the places where a database is closed, with the state at that
moment. In a run that is granted free locks only, the counts are exact in every state, and a
database that is closed is `Unused`.

The condition is about the locks alone: a commit may be granted a lock that another client in a
transaction has, and what that client holds after it ends its transaction is not what is noted of
it. Then a lock stays when all have left the database.
-/

namespace BlobsDb

namespace Server

variable {s s' t : Server} {c d : ClientId} {name name' : DatabaseName} {od : OpenDatabase}
  {id : DatabaseId} {e : Event}

/-! ### Counts -/

/-- The entries that refer to a database, each one a client with the id it knows it by. -/
def slots (s : Server) (name : DatabaseName) : Set (ClientId × DatabaseId) :=
  {e | s.getDatabase e.1 e.2 = some name}

/-- Those of clients in a transaction that read from the kept snapshot. -/
def mvccSlots (s : Server) (name : DatabaseName) : Set (ClientId × DatabaseId) :=
  {e | s.getDatabase e.1 e.2 = some name ∧ s.active e.1 = true ∧ s.isDatabaseMVCC e.1 e.2 = true}

structure ReferenceCounts (s : Server) : Prop where
  isOpen : ∀ c id name, s.getDatabase c id = some name → (s.databases name).isSome
  useCount : ∀ name od, s.databases name = some od → (s.slots name).encard = od.useCount
  mvccUseCount : ∀ name od, s.databases name = some od →
    (s.mvccSlots name).encard = od.database.mvccUseCount
  mvccSnapshot : ∀ name od, s.databases name = some od →
    (od.database.mvccSnapshot ≠ none ↔ 0 < od.database.mvccUseCount)
  /-- A read from the kept snapshot finds one. -/
  snapshotFor : ∀ c id name od, s.getDatabase c id = some name → s.active c = true →
    s.isDatabaseMVCC c id = true → s.databases name = some od →
      (od.database.snapshotFor true).isSome

/-- The mode of a database is in its entry. -/
theorem isDatabaseMVCC_eq_true_iff (hname : s.getDatabase c id = some name) :
    s.isDatabaseMVCC c id = true ↔ (s.clients c).openDatabases[id]? = some ⟨some name, true⟩ := by
  obtain ⟨slot, hslot, hslotname⟩ := getDatabase_eq_some_iff.mp hname
  rw [isDatabaseMVCC, hslot, Option.some.injEq, DatabaseSlot.mk.injEq]
  simp [hslotname]

/-- The clients of the entries are the users of the database. -/
theorem image_fst_slots (s : Server) (name : DatabaseName) :
    Prod.fst '' s.slots name = {c | name ∈ s.openNames c} := by
  ext c
  constructor
  · rintro ⟨⟨c, id⟩, hname, rfl⟩
    exact mem_openNames_of_getDatabase hname
  · intro hname
    obtain ⟨slot, hslot, hslotname⟩ := List.mem_filterMap.mp hname
    obtain ⟨id, hid⟩ := List.mem_iff_getElem?.mp hslot
    exact ⟨(c, id), getDatabase_eq_some_iff.mpr ⟨slot, hid, hslotname⟩, rfl⟩

theorem image_fst_mvccSlots (s : Server) (name : DatabaseName) :
    Prod.fst '' s.mvccSlots name = s.mvccClients name := by
  ext c
  constructor
  · rintro ⟨⟨c, id⟩, ⟨hname, hactive, hmvcc⟩, rfl⟩
    exact ⟨hactive, List.mem_of_getElem? ((isDatabaseMVCC_eq_true_iff hname).mp hmvcc)⟩
  · rintro ⟨hactive, hmem⟩
    obtain ⟨id, hid⟩ := List.mem_iff_getElem?.mp hmem
    have hname : s.getDatabase c id = some name := getDatabase_eq_some_iff.mpr ⟨_, hid, rfl⟩
    exact ⟨(c, id), ⟨hname, hactive, (isDatabaseMVCC_eq_true_iff hname).mpr hid⟩, rfl⟩

namespace UsersWF

theorem injOn_fst_slots (h : UsersWF s) : Set.InjOn Prod.fst (s.slots name) := by
  rintro ⟨c, i⟩ hi ⟨d, j⟩ hj (rfl : c = d)
  rw [h.getDatabase_inj (i := i) (j := j) hi hj]

/-- A database in use is counted once for each entry. -/
theorem encard_slots (h : UsersWF s) (hod : s.databases name = some od) :
    (s.slots name).encard = od.useCount := by
  obtain ⟨users, hn, hlen, hmem⟩ := h.users name _ (useCount_of_some hod)
  have husers : {c | name ∈ s.openNames c} = (users.toFinset : Set ClientId) := by
    ext c
    simp [hmem]
  calc (s.slots name).encard
      = (Prod.fst '' s.slots name).encard := (h.injOn_fst_slots.encard_image).symm
    _ = (users.toFinset.card : ℕ∞) := by
        rw [image_fst_slots, husers, Set.encard_coe_eq_coe_finsetCard]
    _ = od.useCount := by rw [List.toFinset_card_of_nodup hn, hlen]

end UsersWF

/-- The readers of a kept snapshot are counted once for each entry of a client in a transaction. -/
theorem encard_mvccSlots (hwf : UsersWF s) (h : MvccWF s) (hod : s.databases name = some od) :
    (s.mvccSlots name).encard = od.database.mvccUseCount := by
  have hsub : s.mvccSlots name ⊆ s.slots name := fun e he => he.1
  rw [← (hwf.injOn_fst_slots.mono hsub).encard_image, image_fst_mvccSlots]
  exact (h.counts name _ (readers_of_some hod)).1

/-- The counts are exact in a state whose users and readers are counted. -/
theorem referenceCounts (hwf : UsersWF s) (h : MvccWF s) : ReferenceCounts s := by
  have hsnapshot : ∀ name od, s.databases name = some od →
      (od.database.mvccSnapshot ≠ none ↔ 0 < od.database.mvccUseCount) := fun name od hod =>
    Option.isSome_iff_ne_none.symm.trans (h.counts name _ (readers_of_some hod)).2
  refine ⟨fun c id name hname => ?_, fun _ _ => hwf.encard_slots, fun _ _ => encard_mvccSlots hwf h,
    hsnapshot, fun c id name od hname hactive hmvcc hod => ?_⟩
  · have hopen := hwf.isOpen c name (mem_openNames_of_getDatabase hname)
    rwa [Server.useCount, Option.isSome_map] at hopen
  · refine Option.isSome_iff_ne_none.mpr ((hsnapshot name od hod).mpr ?_)
    have hcount := encard_mvccSlots hwf h hod
    refine Nat.pos_of_ne_zero fun hzero => ?_
    rw [hzero, Nat.cast_zero, Set.encard_eq_zero] at hcount
    exact (Set.eq_empty_iff_forall_notMem.mp hcount) (c, id) ⟨hname, hactive, hmvcc⟩

/-! ### Closings -/

/-- Nobody uses a database: it may be closed. -/
structure Unused (s : Server) (name : DatabaseName) : Prop where
  slots : s.slots name = ∅
  locks : ∀ l, (s.locks name).locks l = none
  queue : s.queue name = []
  readers : ∀ od, s.databases name = some od →
    od.database.mvccUseCount = 0 ∧ od.database.mvccSnapshot = none

/-- `Database::Release` closes the database, in the state `t`. -/
def ReleaseCloses (name : DatabaseName) (s t : Server) : Prop :=
  ∃ od, s.databases name = some od ∧ od.useCount - 1 = 0 ∧ s.databaseCloseDelay = 0 ∧
    t = s.setDatabase name { od with useCount := od.useCount - 1 }

/-- `Client::CloseDatabase` closes the database, in the state `t`. -/
def LeavingCloses (c : ClientId) (id : DatabaseId) (name : DatabaseName) (s t : Server) : Prop :=
  ∃ s₁, s.getDatabase c id = some name ∧ s.leaving c id name = some s₁ ∧ ReleaseCloses name s₁ t

/-- An event closes a database, and `t` is the state at that moment. A database that could not be
loaded is not listed, as it was never among the open ones. -/
inductive Closes (name : DatabaseName) (s : Server) : Event → Server → Prop
  | delayed {od : OpenDatabase} (hod : s.databases name = some od) (huse : od.useCount = 0) :
    Closes name s (.delayedClose name) s
  | overwritten {c : ClientId} {mvcc : Bool} {od : OpenDatabase}
      (hod : s.databases name = some od) (huse : od.useCount = 0) :
    Closes name s (.databaseOpen c name .createAlways mvcc) s
  | notEntered {c : ClientId} {mode : OpenMode} {mvcc : Bool} {s₁ t : Server}
      {r : DatabaseOpenResponse.Result} (hopen : s.openDatabase name mode = some (.success, s₁))
      (hnot : name ∈ s₁.openNames c ∨
        enterDatabase (s₁.clients c).openDatabases ⟨some name, mvcc⟩ = none)
      (hrelease : ReleaseCloses name (s₁.send c (.databaseOpen r 0)) t) :
    Closes name s (.databaseOpen c name mode mvcc) t
  | left {c : ClientId} {id : DatabaseId} {t : Server} (hactive : s.active c = false)
      (hclose : LeavingCloses c id name s t) : Closes name s (.databaseClose c id) t
  | disconnected {c : ClientId} {s₁ s₂ t : Server} {i : DatabaseId}
      (habort : s.abortTransaction c true = some s₁)
      (hi : i < (s₁.clients c).openDatabases.length)
      (hbefore : (List.range i).foldlM (fun s id =>
        if (s.getDatabase c id).isSome then s.clientCloseDatabase c id else some s) s₁ = some s₂)
      (hclose : LeavingCloses c i name s₂ t) : Closes name s (.connectionClosed c) t

/-- A database without users has no locks, reads or readers. -/
theorem unused_of_uses_eq_zero (hwf : UsersWF s) (hlocks : LocksWF s) (h : MvccWF s)
    (hzero : s.uses name = 0) : Unused s name := by
  have hnot := hwf.forall_not_mem hzero
  refine ⟨?_, fun l => ?_, ?_, fun od hod => ?_⟩
  · exact Set.eq_empty_iff_forall_notMem.mpr fun e he => hnot e.1 (mem_openNames_of_getDatabase he)
  · refine (hlocks.agrees name).locks_eq_none (fun c => ?_) l
    exact List.eq_nil_iff_forall_not_mem.mpr fun l hl => hnot c (hlocks.isOpen name c l hl)
  · exact List.eq_nil_iff_forall_not_mem.mpr fun m hm => hwf.not_waits hzero m.clientId ⟨m, hm, rfl⟩
  · obtain ⟨hn, hb⟩ := h.counts name _ (readers_of_some hod)
    have hempty : s.mvccClients name = ∅ :=
      Set.eq_empty_iff_forall_notMem.mpr fun c hc => hnot c (mem_openNames_of_mvcc hc)
    rw [hempty, Set.encard_empty] at hn
    have hnone : od.database.mvccUseCount = 0 := by exact_mod_cast hn.symm
    refine ⟨hnone, Option.not_isSome_iff_eq_none.mp fun hsome => ?_⟩
    have hpos : 0 < od.database.mvccUseCount := hb.mp hsome
    omega

namespace ReleaseCloses

variable {s₁ : Server}

theorem releasedOnce (h : ReleaseCloses name s t) : ReleasedOnce name s t := by
  obtain ⟨od, hod, -, -, rfl⟩ := h
  refine ⟨rfl, rfl, fun name' hne => databases_setDatabase_of_ne hne, Or.inl ?_, Or.inl ?_⟩
  · rw [uses_of_some hod]
    exact useCount_of_some databases_setDatabase_self
  · exact queue_setDatabase_self.trans (queue_of_some hod).symm

theorem uses_eq_zero (h : ReleaseCloses name s t) : t.uses name = 0 := by
  obtain ⟨od, -, hzero, -, rfl⟩ := h
  exact (uses_of_some databases_setDatabase_self).trans hzero

/-- What is closed as it is released is unused. -/
theorem unused (h : ReleaseCloses name s t) (hwf : UsersWF t) (hlocks : LocksWF s)
    (hreaders : MvccWF s) : Unused t name := by
  obtain ⟨od, hod, -, -, rfl⟩ := id h
  have hmove : Move .noCommits s
      (s.setDatabase name { od with useCount := od.useCount - 1 }) := .database hod (.used _)
  have hsame : SameReaders s (s.setDatabase name { od with useCount := od.useCount - 1 }) :=
    sameReaders_setDatabase hod rfl
  exact unused_of_uses_eq_zero hwf (hmove.locksWF hlocks) (hreaders.of_same hsame rfl)
    h.uses_eq_zero

end ReleaseCloses

/-- What is closed as a client leaves it is unused. -/
theorem LeavingCloses.unused (h : LeavingCloses c id name s t) (hactive : s.active c = false)
    (hwf : UsersWF s) (hlocks : LocksWF s) (hreaders : MvccWF s) : Unused t name := by
  obtain ⟨s₁, hname, hleaving, hrelease⟩ := h
  have hmoves : Moves .noCommits s s₁ := moves_leaving hleaving hactive hname
  have hwf' : UsersWF t := (left_of_leaving hleaving hname).usersWF hrelease.releasedOnce hwf
  exact hrelease.unused hwf' (hmoves.locksWF hlocks) (hreaders.leaving hleaving hactive hname)

/-- A database is not closed before all who use it have left it. -/
theorem Closes.unused (h : Closes name s e t) (hwf : UsersWF s) (hs : Healthy s)
    (hlocks : LocksWF s) (hreaders : MvccWF s) : Unused t name := by
  cases h with
  | delayed hod huse =>
    exact unused_of_uses_eq_zero hwf hlocks hreaders ((uses_of_some hod).trans huse)
  | overwritten hod huse =>
    exact unused_of_uses_eq_zero hwf hlocks hreaders ((uses_of_some hod).trans huse)
  | @notEntered c mode mvcc s₁ t r hopen hnot hrelease =>
    rcases openDatabase_eq_some hopen with ⟨-, ho⟩ | ⟨hne, -⟩
    swap
    · exact absurd rfl hne
    have hmoves : Moves .noCommits s (s₁.send c (.databaseOpen r 0)) :=
      (moves_openDatabase hopen hwf trivial).tail (.send c _)
    have hdatabases : (s₁.send c (.databaseOpen r 0)).databases = s₁.databases := rfl
    have hwf' : UsersWF t := (hwf.release_of_opened ho hdatabases rfl hrelease.releasedOnce).1
    have hreaders₁ : MvccWF s₁ :=
      hreaders.of_used hwf ho.clients (sameUsedReaders_openDatabase hopen)
    exact hrelease.unused hwf' (hmoves.locksWF hlocks) (hreaders₁.send _)
  | left hactive hclose => exact hclose.unused hactive hwf hlocks hreaders
  | @disconnected c s₁ s₂ t i habort hi hbefore hclose =>
    have hactive : s₁.active c = false := inactive_of_abortTransaction habort hwf
    have haborted : Moves .noCommits s s₁ := moves_abortTransaction habort hwf hs trivial
    obtain ⟨h1, h2, h3, h4⟩ : Moves .noCommits s s₂ ∧ UsersWF s₂ ∧ MvccWF s₂ ∧
        s₂.active c = false := by
      refine foldlM_induction (P := fun s₂ => Moves .noCommits s s₂ ∧ UsersWF s₂ ∧ MvccWF s₂ ∧
        s₂.active c = false) hbefore ⟨haborted, (abortTransaction_clients habort hwf).1,
          hreaders.abortTransaction habort hwf, hactive⟩ fun j _ s₃ s₄ hstep ⟨h1, h2, h3, h4⟩ => ?_
      split_ifs at hstep
      · obtain ⟨h5, h6, -⟩ := clientCloseDatabase_calm hstep h2
        exact ⟨h1.trans (moves_clientCloseDatabase hstep h4 h2), h5,
          h3.clientCloseDatabase hstep h4, h6.hasTransaction.trans h4⟩
      · obtain rfl := Option.some.inj hstep
        exact ⟨h1, h2, h3, h4⟩
    exact hclose.unused h4 h2 (h1.locksWF hlocks) h3

/-! ### No other closings -/

theorem isSome_useCount : (s.useCount name).isSome = (s.databases name).isSome := by
  rw [useCount, Option.isSome_map]

/-- The end of a transaction closes no database. -/
theorem useCount_abortTransaction {b : Bool} (h : s.abortTransaction c b = some s')
    (name : DatabaseName) : s'.useCount name = s.useCount name := by
  cases hactive : s.active c with
  | true => exact (ended_abortTransaction h hactive).useCount name
  | false =>
    rw [abortTransaction, hactive] at h
    obtain rfl := Option.some.inj h
    rfl

/-- A read closes no database. -/
theorem useCount_handleBlobsRead {m : BlobsRead} (h : s.handleBlobsRead m = some s')
    (hwf : UsersWF s) (name : DatabaseName) : s'.useCount name = s.useCount name := by
  rcases handleBlobsRead_eq_some h with htry | ⟨s₁, htry, rfl⟩ | ⟨vs, s₂, hvs, hfold⟩
  · exact htry.tried.kept.useCount name
  · exact htry.tried.kept.useCount name
  · obtain ⟨-, -, hcount, -⟩ := (foundVictims hvs).waiting hwf
    refine foldlM_induction (P := fun s' => s'.useCount name = s.useCount name) hfold (hcount name)
      fun v _ s₃ s₄ hstep h3 => ?_
    exact (useCount_abortTransaction hstep name).trans h3

/-- A commit closes no database. -/
theorem useCount_handleTransactionCommit {m : TransactionCommit} {σ : DatabaseName → Schedule}
    (h : s.handleTransactionCommit c m σ = some s') (name : DatabaseName) :
    s'.useCount name = s.useCount name := by
  unfold handleTransactionCommit at h
  split_ifs at h with hactive hfollow
  · obtain rfl := Option.some.inj h
    rfl
  · obtain rfl := Option.some.inj h
    rfl
  · obtain ⟨s₁, r, commits, hreplied, habort, -⟩ := finishCommit_eq_some h
    exact (useCount_abortTransaction habort name).trans (hreplied.useCount name)

/-- A database that is gone after a release was closed by it. -/
theorem closes_of_release {s₁ : Server} (h : s₁.release name' = some s')
    (hopen : (s₁.databases name).isSome) (hclosed : s'.databases name = none) :
    name' = name ∧ ∃ t, ReleaseCloses name s₁ t := by
  unfold release at h
  split at h
  · cases h
  · next od hod =>
    obtain rfl := Option.some.inj h
    by_cases hne : name = name'
    · subst hne
      split_ifs at hclosed with hclose
      · exact ⟨rfl, _, od, hod, hclose.1, hclose.2, rfl⟩
      · rw [databases_setDatabase_self] at hclosed
        cases hclosed
    · have hsame : s₁.databases name = none := by
        split_ifs at hclosed
        · rwa [closeDatabase_databases, Function.update_of_ne hne,
            databases_setDatabase_of_ne hne] at hclosed
        · rwa [databases_setDatabase_of_ne hne] at hclosed
      rw [hsame] at hopen
      cases hopen

/-- A database that is gone after a client closed one was left by it. -/
theorem leavingCloses_of_closed (h : s.clientCloseDatabase c id = some s')
    (hopen : (s.databases name).isSome) (hclosed : s'.databases name = none) :
    ∃ t, LeavingCloses c id name s t := by
  obtain ⟨name', s₁, hname, hleaving, hrelease⟩ := clientCloseDatabase_eq_some h
  have hopen₁ : (s₁.databases name).isSome := by
    rwa [← isSome_useCount, (left_of_leaving hleaving hname).useCount, isSome_useCount]
  obtain ⟨rfl, t, ht⟩ := closes_of_release hrelease hopen₁ hclosed
  exact ⟨t, s₁, hname, hleaving, ht⟩

/-- Of the databases a client leaves one after another, one is the first to close it. -/
theorem leavingCloses_of_closeAll {n : ℕ} (h : (List.range n).foldlM (fun s id =>
      if (s.getDatabase c id).isSome then s.clientCloseDatabase c id else some s) s = some s')
    (hopen : (s.databases name).isSome) (hclosed : s'.databases name = none) :
    ∃ i < n, ∃ s₂ t, (List.range i).foldlM (fun s id =>
      if (s.getDatabase c id).isSome then s.clientCloseDatabase c id else some s) s = some s₂ ∧
        LeavingCloses c i name s₂ t := by
  induction n generalizing s' with
  | zero =>
    obtain rfl := Option.some.inj h
    rw [hclosed] at hopen
    cases hopen
  | succ n ih =>
    rw [List.range_succ, List.foldlM_append] at h
    obtain ⟨s₂, hbefore, hlast⟩ := Option.bind_eq_some_iff.mp h
    cases hs₂ : s₂.databases name with
    | none =>
      obtain ⟨i, hi, hrest⟩ := ih hbefore hs₂
      exact ⟨i, hi.trans (Nat.lt_succ_self n), hrest⟩
    | some od =>
      rw [List.foldlM_cons] at hlast
      obtain ⟨s₃, hs₃, hnil⟩ := Option.bind_eq_some_iff.mp hlast
      obtain rfl := Option.some.inj hnil
      split_ifs at hs₃
      · obtain ⟨t, ht⟩ := leavingCloses_of_closed hs₃ (by rw [hs₂]; rfl) hclosed
        exact ⟨n, Nat.lt_succ_self n, s₂, t, hbefore, ht⟩
      · obtain rfl := Option.some.inj hs₃
        rw [hs₂] at hclosed
        cases hclosed

/-- Opening a database closes it only to overwrite it. -/
theorem openDatabase_isSome {mode : OpenMode} {r : DatabaseOpenResponse.Result}
    (h : s.openDatabase name' mode = some (r, s')) (hopen : (s.databases name).isSome) :
    (s'.databases name).isSome ∨ name' = name ∧ mode = .createAlways ∧
      ∃ od, s.databases name = some od ∧ od.useCount = 0 := by
  by_cases hne : name = name'
  · subst hne
    have hunloads : ∀ {s₁ : Server}, Unloads name mode s s₁ → name = name ∧ mode = .createAlways ∧
        ∃ od, s.databases name = some od ∧ od.useCount = 0 := by
      rintro _ (⟨hnone, -⟩ | ⟨rfl, hod, -⟩)
      · rw [hnone] at hopen
        cases hopen
      · exact ⟨rfl, rfl, hod⟩
    cases opening_of_openDatabase h with
    | refused => exact Or.inl hopen
    | used =>
      left
      rw [databases_setDatabase_self]
      rfl
    | failed hs₁ => exact Or.inr (hunloads hs₁)
    | loaded hs₁ => exact Or.inr (hunloads hs₁)
  · left
    rcases openDatabase_eq_some h with ⟨-, ho⟩ | ⟨-, rfl | ⟨-, rfl⟩⟩
    · rwa [ho.databases name hne]
    · exact hopen
    · rwa [closeDatabase_databases, Function.update_of_ne hne]

/-- A database that is gone after an open request was closed to be overwritten, or as the request
failed. -/
theorem closes_of_handleDatabaseOpen {mode : OpenMode} {mvcc : Bool}
    (h : s.handleDatabaseOpen c name' mode mvcc = some s')
    (hopen : (s.databases name).isSome) (hclosed : s'.databases name = none) :
    ∃ t, Closes name s (.databaseOpen c name' mode mvcc) t := by
  have hcases : ∀ {r s₁}, s.openDatabase name' mode = some (r, s₁) →
      ((s₁.databases name).isSome → ∃ t, Closes name s (.databaseOpen c name' mode mvcc) t) →
        ∃ t, Closes name s (.databaseOpen c name' mode mvcc) t := fun hopen₁ hrest => by
    rcases openDatabase_isSome hopen₁ hopen with hsome | ⟨rfl, rfl, od, hod, huse⟩
    · exact hrest hsome
    · exact ⟨s, .overwritten hod huse⟩
  have hcontra : ∀ {s₁ : Server}, s₁.databases name = s'.databases name →
      (s₁.databases name).isSome → False := fun hsame hsome => by
    rw [hsame, hclosed] at hsome
    cases hsome
  unfold handleDatabaseOpen at h
  split at h
  · cases h
  · next s₁ hopen₁ =>
    refine hcases hopen₁ fun hsome => ?_
    split_ifs at h with hmem
    · obtain ⟨rfl, t, ht⟩ := closes_of_release h hsome hclosed
      exact ⟨t, .notEntered hopen₁ (Or.inl hmem) ht⟩
    · split at h
      · next hfull =>
        obtain ⟨rfl, t, ht⟩ := closes_of_release h hsome hclosed
        exact ⟨t, .notEntered hopen₁ (Or.inr hfull) ht⟩
      · dsimp only at h
        split_ifs at h
        · obtain ⟨od, od', hod, -, rfl⟩ := updateDatabase_eq_some_iff.mp h
          have hne : name ≠ name' := fun hne => by
            rw [hne, databases_setDatabase_self] at hclosed
            cases hclosed
          exact (hcontra (databases_setDatabase_of_ne hne).symm hsome).elim
        · obtain rfl := Option.some.inj h
          exact (hcontra rfl hsome).elim
  · next r s₁ hne hopen₁ =>
    obtain rfl := Option.some.inj h
    exact hcases hopen₁ fun hsome => (hcontra rfl hsome).elim

/-- Whenever a step closes a database, it is one of the closings. -/
theorem Step.closes (hstep : Step s e s') (hwf : UsersWF s) (hopen : (s.databases name).isSome)
    (hclosed : s'.databases name = none) : ∃ t, Closes name s e t := by
  -- a database that is closed changes its number of users, so most events are out
  have hsame : s'.useCount name ≠ s.useCount name := fun hsame => by
    rw [← isSome_useCount, ← hsame, isSome_useCount, hclosed] at hopen
    cases hopen
  obtain ⟨-, hhandle⟩ := hstep
  cases e with
  | connectionOpened c =>
    rw [handle] at hhandle
    obtain rfl := Option.some.inj hhandle
    exact absurd rfl hsame
  | connectionClosed c =>
    change s.handleConnectionClosed c = some s' at hhandle
    unfold handleConnectionClosed at hhandle
    split at hhandle
    · cases hhandle
    · next s₁ habort =>
      obtain ⟨s₂, hclose, rfl⟩ := Option.map_eq_some_iff.mp hhandle
      -- the end of the transaction closes nothing
      have hopen₁ : (s₁.databases name).isSome := by
        rwa [← isSome_useCount, useCount_abortTransaction habort, isSome_useCount]
      obtain ⟨i, hi, s₃, t, hbefore, ht⟩ := leavingCloses_of_closeAll hclose hopen₁ hclosed
      exact ⟨t, .disconnected habort hi hbefore ht⟩
  | databaseOpen c name' mode mvcc => exact closes_of_handleDatabaseOpen hhandle hopen hclosed
  | databaseClose c id =>
    change s.handleDatabaseClose c id = some s' at hhandle
    unfold handleDatabaseClose at hhandle
    split_ifs at hhandle with hactive
    · obtain rfl := Option.some.inj hhandle
      exact absurd rfl hsame
    · split at hhandle
      · obtain rfl := Option.some.inj hhandle
        exact absurd rfl hsame
      · obtain ⟨s₁, h₁, rfl⟩ := Option.map_eq_some_iff.mp hhandle
        obtain ⟨t, ht⟩ := leavingCloses_of_closed h₁ hopen hclosed
        exact ⟨t, .left (Bool.eq_false_iff.mpr hactive) ht⟩
  | blobsRead m => exact absurd (useCount_handleBlobsRead hhandle hwf name) hsame
  | transactionBegin c priority modes =>
    obtain ⟨s₁, r, locks, hbegun, rfl, -⟩ := handleTransactionBegin_begun hhandle
    exact absurd (hbegun.same.useCount name) hsame
  | transactionAbort c => exact absurd (useCount_abortTransaction hhandle name) hsame
  | transactionCommit c m σ => exact absurd (useCount_handleTransactionCommit hhandle name) hsame
  | lockTimeouts name' due => exact absurd ((checkForLockTimeouts_eq_some hhandle).2.1 name) hsame
  | delayedClose name' =>
    rw [handle] at hhandle
    split at hhandle
    · obtain rfl := Option.some.inj hhandle
      exact absurd rfl hsame
    · next od hod =>
      obtain rfl := Option.some.inj hhandle
      split_ifs at hclosed with huse
      · have hne : name = name' := by
          by_contra hne
          rw [closeDatabase_databases, Function.update_of_ne hne] at hclosed
          rw [hclosed] at hopen
          cases hopen
        subst hne
        exact ⟨s, .delayed hod huse⟩
      · rw [hclosed] at hopen
        cases hopen

/-! ### Runs -/

/-- The step of the server: messages come from connected clients. -/
def step (s : Server) (e : Event) : Option Server :=
  if ∀ c ∈ e.sender, (s.clients c).connected = true then s.handle e else none

/-- The executable step is the relation. -/
theorem step_eq_some_iff : s.step e = some s' ↔ Step s e s' := by
  rw [step, Step]
  split_ifs with hconnected
  · exact (and_iff_right hconnected).symm
  · exact iff_of_false nofun fun h => hconnected h.1

/-- The counts are exact, and a database is closed only when nobody uses it. -/
structure Counted (s : Server) : Prop where
  counts : ReferenceCounts s
  closes : ∀ name e t, Closes name s e t → Unused t name

/-- The counts are exact in every run, as long as what is granted is free. -/
theorem counted_of_grantsFree {files : DatabaseName → Option FileContent} {delay : ℕ}
    {es : List Event} (hstart : Healthy (start files delay))
    (hrun : GuardedRun step GrantsFree (start files delay) es s) : Counted s := by
  obtain ⟨hwf, hs, hlocks, hreaders⟩ : UsersWF s ∧ Healthy s ∧ LocksWF s ∧ MvccWF s := by
    refine hrun.invariant (I := fun _ s => UsersWF s ∧ Healthy s ∧ LocksWF s ∧ MvccWF s)
      ⟨usersWF_start files delay, hstart, locksWF_start files delay, mvccWF_start files delay⟩
      fun _ s e s' ⟨hwf, hs, hlocks, hreaders⟩ hfree hstep => ?_
    have hstep := step_eq_some_iff.mp hstep
    exact ⟨hstep.usersWF hwf, hstep.healthy hwf hs, hstep.locksWF hwf hs hfree hlocks,
      hstep.mvccWF hwf hreaders⟩
  exact ⟨referenceCounts hwf hreaders, fun _ _ _ hclose => hclose.unused hwf hs hlocks hreaders⟩

/-- Two clients use a database, one of them reads from its kept snapshot, and what the other one
creates is granted to it. -/
theorem counted_of_grantsFree_shared : ∃ es s, GuardedRun step GrantsFree (start (fun _ => none) 0) es s ∧
    s.useCount (.mem 0) = some 2 ∧ s.readers (.mem 0) = some (1, true) ∧
      (s.locks (.mem 0)).held 1 ≠ [] ∧ Counted s := by
  let nextSegment : BlobLocation := ⟨nextFreeSegmentId, nextFreeClusterId, nextFreeBlobId⟩
  let es : List Event := [.connectionOpened 1, .connectionOpened 2,
    .databaseOpen 1 (.mem 0) .createIfNotExist false, .transactionBegin 1 0 [],
    .transactionBegin 2 0 [], .databaseOpen 2 (.mem 0) .createIfNotExist true,
    .blobsRead ⟨1, 0, .write, 0, [⟨nextSegment, 0⟩]⟩,
    .transactionCommit 1 ⟨false, 0, [⟨nextSegment, some [2, 0, 0, 0]⟩]⟩
      fun _ => ⟨[], [], .insertion, []⟩]
  have hplay : (GuardedRun.play step GrantsFree es (start (fun _ => none) 0)).map (fun s =>
      decide (s.useCount (.mem 0) = some 2 ∧ s.readers (.mem 0) = some (1, true) ∧
        (s.locks (.mem 0)).held 1 ≠ [])) = some true := by
    decide +kernel
  obtain ⟨s, hs, hplay⟩ := Option.map_eq_some_iff.mp hplay
  obtain ⟨huse, hreaders, hheld⟩ := of_decide_eq_true hplay
  have hrun := GuardedRun.of_play hs
  exact ⟨es, s, hrun, huse, hreaders, hheld, counted_of_grantsFree (healthy_start 0) hrun⟩

/-- A client writes the next segment twice in one commit, and is granted the locks of segments that
do not exist. The next commit creates one of them and is granted its locks too. What the first
client then reads keeps its lock when both clients have left. -/
theorem not_counted_of_granted_twice : ∃ es s t,
    GuardedRun step (fun _ _ => True) (start (fun _ => none) 0) es s ∧
      Closes (.mem 0) s (.databaseClose 2 0) t ∧
        (t.locks (.mem 0)).locks ⟨1, 0, 0⟩ ≠ none ∧ ¬Counted s := by
  let nextSegment : BlobLocation := ⟨nextFreeSegmentId, nextFreeClusterId, nextFreeBlobId⟩
  let σ : DatabaseName → Schedule := fun _ => ⟨[], [], .insertion, []⟩
  let writeLock (c : ClientId) (l : BlobLocation) : Event := .blobsRead ⟨c, 0, .write, 0, [⟨l, 0⟩]⟩
  let es : List Event := [.connectionOpened 1, .connectionOpened 2,
    .databaseOpen 1 (.mem 0) .createIfNotExist false,
    .databaseOpen 2 (.mem 0) .createIfNotExist false,
    .transactionBegin 1 0 [], writeLock 1 nextSegment,
    .transactionCommit 1 ⟨false, 0, [⟨nextSegment, some [3, 0, 0, 0]⟩,
      ⟨nextSegment, some [1, 0, 0, 0]⟩]⟩ σ,
    .transactionBegin 2 0 [], writeLock 2 nextSegment, .transactionBegin 1 0 [],
    .transactionCommit 2 ⟨false, 0, [⟨nextSegment, some [2, 0, 0, 0]⟩, ⟨⟨1, 0, 0⟩, some [7]⟩]⟩ σ,
    writeLock 1 ⟨1, 0, 0⟩, .transactionAbort 1, .databaseClose 1 0]
  have hplay : ((GuardedRun.play step (fun _ _ => True) es (start (fun _ => none) 0)).bind fun s =>
      (s.leaving 2 0 (.mem 0)).bind fun s₁ => (s₁.databases (.mem 0)).map fun od =>
        decide (s.active 2 = false ∧ s.getDatabase 2 0 = some (.mem 0) ∧ od.useCount - 1 = 0 ∧
          s₁.databaseCloseDelay = 0 ∧ (od.locks.locks ⟨1, 0, 0⟩).isSome)) = some true := by
    decide +kernel
  obtain ⟨s, hs, hplay⟩ := Option.bind_eq_some_iff.mp hplay
  obtain ⟨s₁, hleaving, hplay⟩ := Option.bind_eq_some_iff.mp hplay
  obtain ⟨od, hod, hplay⟩ := Option.map_eq_some_iff.mp hplay
  obtain ⟨hactive, hname, huse, hdelay, hlock⟩ := of_decide_eq_true hplay
  have hclose : Closes (.mem 0) s (.databaseClose 2 0)
      (s₁.setDatabase (.mem 0) { od with useCount := od.useCount - 1 }) :=
    .left hactive ⟨s₁, hname, hleaving, od, hod, huse, hdelay, rfl⟩
  have hlocked : ((s₁.setDatabase (.mem 0) { od with useCount := od.useCount - 1 }).locks
      (.mem 0)).locks ⟨1, 0, 0⟩ ≠ none := by
    rw [locks_setDatabase_self]
    exact Option.isSome_iff_ne_none.mp hlock
  exact ⟨es, s, _, GuardedRun.of_play hs, hclose, hlocked,
    fun h => hlocked ((h.closes _ _ _ hclose).locks ⟨1, 0, 0⟩)⟩

end Server

end BlobsDb
