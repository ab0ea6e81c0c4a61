import BlobsDb.Server.Holding
import Mathlib.Data.Set.Card

/-!
# Who reads the kept snapshots

A database counts the transactions that read from its kept snapshot. `MvccWF` tells that these are
the clients that are in a transaction and have the database open for such reads, and that there is
a kept snapshot exactly if there are some.
-/

namespace BlobsDb

/-- How many transactions read from the kept snapshot, and whether there is one. -/
def OpenDatabase.readers (od : OpenDatabase) : ℕ × Bool :=
  (od.database.mvccUseCount, od.database.mvccSnapshot.isSome)

namespace Server

variable {s s' : Server} {c d : ClientId} {name name' : DatabaseName} {m : BlobsRead} {b : Bool}
  {od od' : OpenDatabase} {id : DatabaseId}

def readers (s : Server) (name : DatabaseName) : Option (ℕ × Bool) :=
  (s.databases name).map OpenDatabase.readers

/-- The clients in a transaction that reads from the kept snapshot. -/
def mvccClients (s : Server) (name : DatabaseName) : Set ClientId :=
  {c | s.active c = true ∧ ⟨some name, true⟩ ∈ (s.clients c).openDatabases}

/-- The number of some clients, and that there is a snapshot for them. -/
def Counts (cs : Set ClientId) (r : ℕ × Bool) : Prop :=
  cs.encard = r.1 ∧ (r.2 = true ↔ 0 < r.1)

structure MvccWF (s : Server) : Prop where
  counts : ∀ name r, s.readers name = some r → Counts (s.mvccClients name) r

/-- A server starts without readers of kept snapshots. -/
theorem mvccWF_start (files : DatabaseName → Option FileContent) (delay : ℕ) :
    MvccWF (start files delay) := ⟨fun _ _ h => (nomatch h)⟩

theorem readers_of_some (hod : s.databases name = some od) : s.readers name = some od.readers := by
  rw [readers, hod]
  rfl

theorem readers_congr (h : s'.databases name = s.databases name) :
    s'.readers name = s.readers name := by rw [readers, h, readers]

theorem readers_setDatabase_self : (s.setDatabase name od).readers name = some od.readers :=
  readers_of_some databases_setDatabase_self

theorem readers_setDatabase_of_ne (h : name' ≠ name) :
    (s.setDatabase name od).readers name' = s.readers name' :=
  readers_congr (databases_setDatabase_of_ne h)

/-- Who reads from the kept snapshot of a database has it open. -/
theorem mem_openNames_of_mvcc (h : c ∈ s.mvccClients name) : name ∈ s.openNames c :=
  List.mem_filterMap.mpr ⟨_, h.2, rfl⟩

/-! ### Other changes -/

/-- Nobody begins or ends to read from a kept snapshot. -/
def SameReaders (s s' : Server) : Prop := ∀ name, s'.readers name = s.readers name

theorem SameReaders.refl (s : Server) : SameReaders s s := fun _ => rfl

theorem SameReaders.trans {s'' : Server} (h : SameReaders s s') (h' : SameReaders s' s'') :
    SameReaders s s'' := fun name => (h' name).trans (h name)

/-- A database may change in all but its readers. -/
theorem sameReaders_setDatabase (hod : s.databases name = some od)
    (h : od'.readers = od.readers) : SameReaders s (s.setDatabase name od') := fun name' => by
  by_cases hne : name' = name
  · rw [hne, readers_setDatabase_self, readers_of_some hod, h]
  · exact readers_setDatabase_of_ne hne

/-- Looking something up changes no count of readers. -/
theorem readers_looked {p : Pointer} {db : Database} (h : Database.Looked p od.database db) :
    OpenDatabase.readers { od with database := db } = od.readers := by
  obtain ⟨g, rfl⟩ := h.exists_heap
  rfl

/-- Looking something up leaves the readers. -/
theorem sameReaders_looked {p : Pointer} {db : Database} (hod : s.databases name = some od)
    (h : Database.Looked p od.database db) :
    SameReaders s (s.setDatabase name { od with database := db }) :=
  sameReaders_setDatabase hod (readers_looked h)

/-- Acquiring locks changes no count of readers. -/
theorem readers_acquireLocks {active : ClientId → Bool} {t : Tree 3}
    (h : acquireLocks active m t od = some (b, od')) : od'.readers = od.readers := by
  have hprogress : Progress
      (fun l db => some (od.locks.canAcquire active m.clientId l m.needsWriteLock, db))
      (fun path (db : Database) => db.loadPath db.snapshot path)
      fun db db' => db'.mvccUseCount = db.mvccUseCount ∧ db'.mvccSnapshot = db.mvccSnapshot :=
    { refl := fun _ => ⟨rfl, rfl⟩
      trans := fun _ _ _ h h' => ⟨h'.1.trans h.1, h'.2.trans h.2⟩
      test := fun l db b db' h => by
        cases h
        exact ⟨rfl, rfl⟩
      load := fun path db db' h => by
        obtain ⟨g, rfl⟩ := Database.exists_heap_of_loadPath h
        exact ⟨rfl, rfl⟩ }
  obtain ⟨db, hall, hcases⟩ := acquireLocks_eq_some h
  obtain ⟨⟨hcount, hsnapshot⟩, -⟩ := allLocksInMessage_spec hprogress hall
  have hreaders : (db.mvccUseCount, db.mvccSnapshot.isSome) = od.readers := by
    rw [hcount, hsnapshot, OpenDatabase.readers]
  rcases hcases with ⟨-, rfl⟩ | ⟨-, ls, -, rfl⟩
  · exact hreaders
  · exact hreaders

theorem ReadOn.looked {mvcc : Bool} {snapshot : Pointer} {t : Tree 3} {db : Database}
    {error : Option BlobsReadResponse.Result} (h : ReadOn m s name od mvcc snapshot t db error) :
    Database.Looked snapshot od.database db :=
  (Database.ensureRequestedBlobsExist_spec h.exist).1

/-- Trying a read changes no count of readers. -/
theorem TriedRead.sameReaders (h : TriedRead m s b s') : SameReaders s s' := by
  cases h with
  | error => exact .refl _
  | missing hread => exact sameReaders_looked hread.database hread.looked
  | read hread => exact sameReaders_looked hread.database hread.looked
  | refused hread _ hacquire =>
    exact sameReaders_setDatabase hread.database
      ((readers_acquireLocks hacquire).trans (readers_looked hread.looked))
  | granted hread _ hacquire =>
    exact sameReaders_setDatabase hread.database
      ((readers_acquireLocks hacquire).trans (readers_looked hread.looked))

/-- Trying the reads of a queue changes no count of readers. -/
theorem sameReaders_processQueuedReads {qs qs' : List BlobsRead}
    (h : processQueuedReads qs s = some (qs', s')) : SameReaders s s' := by
  induction qs generalizing s qs' with
  | nil =>
    cases h
    exact .refl _
  | cons m qs ih =>
    rw [processQueuedReads] at h
    split at h
    · cases h
    · next s₁ htry => exact (triedRead htry).sameReaders.trans (ih h)
    · next s₁ htry =>
      obtain ⟨⟨qs₁, s₂⟩, hprocess, heq⟩ := Option.map_eq_some_iff.mp h
      cases heq
      exact (triedRead htry).sameReaders.trans (ih hprocess)

/-- Trying the reads of a database leaves the readers. -/
theorem sameReaders_tryProcessQueuedReads (h : s.tryProcessQueuedReads name = some s') :
    SameReaders s s' := by
  unfold tryProcessQueuedReads at h
  split at h
  · cases h
  · split at h
    · cases h
    · next hprocess =>
      obtain ⟨od₁, od₂, hod₁, hod₂, rfl⟩ := updateDatabase_eq_some_iff.mp h
      obtain rfl := Option.some.inj hod₂
      exact (sameReaders_processQueuedReads hprocess).trans (sameReaders_setDatabase hod₁ rfl)

theorem sameReaders_foldlM_tryProcessQueuedReads {names : List DatabaseName}
    (h : names.foldlM tryProcessQueuedReads s = some s') : SameReaders s s' :=
  foldlM_induction (P := fun s' => SameReaders s s') h (.refl s) fun _ _ _ _ hstep h1 =>
    h1.trans (sameReaders_tryProcessQueuedReads hstep)

/-- Validating a commit changes no count of readers. -/
theorem sameReaders_validateCommitMessages {gs : List (DatabaseId × List TransactionCommit)}
    {r : TransactionCommitResponse.Result} {ls : List (DatabaseId × List BlobLocation)}
    (h : validateCommitMessages c gs s = some (r, ls, s')) : SameReaders s s' := by
  induction gs generalizing s ls with
  | nil =>
    cases h
    exact .refl _
  | cons g gs ih =>
    rw [validateCommitMessages] at h
    split at h
    · cases h
      exact .refl _
    · split at h
      · cases h
      · next od hod =>
        split at h
        · cases h
        · next db ls₁ hvalid =>
          obtain ⟨⟨r', ls', s₁⟩, hr, heq⟩ := Option.map_eq_some_iff.mp h
          cases heq
          exact (sameReaders_looked hod (Database.looked_of_validate hvalid)).trans (ih hr)
        · next hvalid =>
          cases h
          exact sameReaders_looked hod (Database.looked_of_validate hvalid)

/-- Applying a commit changes no count of readers. -/
theorem sameReaders_commitDatabases {σ : DatabaseName → Schedule}
    {gs : List ((DatabaseId × List TransactionCommit) × List BlobLocation)}
    {commits : List (DatabaseId × CommitId)} (h : commitDatabases c σ gs s = some (commits, s')) :
    SameReaders s s' := by
  induction gs generalizing s commits with
  | nil =>
    cases h
    exact .refl _
  | cons p gs ih =>
    obtain ⟨g, ls⟩ := p
    rw [commitDatabases] at h
    split at h
    · cases h
    · next name hname =>
      split at h
      · cases h
      · next od hod =>
        split at h
        · cases h
        · next od' hod' =>
          obtain ⟨⟨commits', s₁⟩, hr, heq⟩ := Option.map_eq_some_iff.mp h
          cases heq
          obtain ⟨r, book, -, -, rfl⟩ := commitDatabase_eq_some hod'
          have hfirst : SameReaders s (s.setDatabase name
              { od with database := od.database.applyToDatabase r (σ name), locks := book }) :=
            sameReaders_setDatabase hod rfl
          exact hfirst.trans (ih hr)

/-! ### Beginning and ending -/

/-- One more transaction reads from the kept snapshot. -/
def beginReading (r : ℕ × Bool) : ℕ × Bool := (r.1 + 1, decide (r.1 = 0) || r.2)

/-- One transaction less reads from the kept snapshot. -/
def endReading (r : ℕ × Bool) : ℕ × Bool := (r.1 - 1, decide (r.1 - 1 ≠ 0) && r.2)

/-- The count is right after one more client begins to read. -/
theorem Counts.beginReading {cs : Set ClientId} {r : ℕ × Bool} (h : Counts cs r) (hc : c ∉ cs) :
    Counts (insert c cs) (beginReading r) := by
  obtain ⟨hn, hb⟩ := h
  refine ⟨?_, iff_of_true ?_ (Nat.succ_pos r.1)⟩
  · rw [Set.encard_insert_of_notMem hc, hn]
    exact (Nat.cast_succ r.1).symm
  · rw [Server.beginReading, Bool.or_eq_true, decide_eq_true_iff, hb]
    exact Nat.eq_zero_or_pos r.1

/-- The count is right after a client stops to read. -/
theorem Counts.endReading {cs : Set ClientId} {r : ℕ × Bool} (h : Counts cs r) (hc : c ∈ cs) :
    Counts (cs \ {c}) (endReading r) := by
  obtain ⟨hn, hb⟩ := h
  have hpos : 0 < r.1 := by
    refine Nat.pos_of_ne_zero fun hzero => ?_
    rw [hzero, Nat.cast_zero, Set.encard_eq_zero] at hn
    rw [hn] at hc
    exact hc
  constructor
  · rw [Set.encard_sdiff_singleton_of_mem hc, hn]
    exact (ENat.natCast_sub r.1 1).symm
  · rw [Server.endReading, hb.mpr hpos, Bool.and_true, decide_eq_true_iff]
    exact Nat.pos_iff_ne_zero.symm

/-- One more transaction reads. -/
theorem readers_beginMVCC :
    OpenDatabase.readers { od with database := od.database.beginMVCC } = beginReading od.readers := by
  rw [OpenDatabase.readers, beginReading, Database.beginMVCC]
  dsimp only [OpenDatabase.readers]
  split_ifs with h
  · simp [h]
  · simp [h]

/-- One transaction less reads. -/
theorem readers_endMVCC :
    OpenDatabase.readers { od with database := od.database.endMVCC } = endReading od.readers := by
  rw [OpenDatabase.readers, endReading, Database.endMVCC]
  dsimp only [OpenDatabase.readers]
  split_ifs with h
  · simp [h]
  · simp [h]

/-- What the end of a transaction does in one database. -/
theorem readers_leaveDatabase {slot : DatabaseSlot} (h : leaveDatabase c b s slot = some s') :
    s'.readers name = if slot = ⟨some name, true⟩ then (s.readers name).map endReading
      else s.readers name := by
  unfold leaveDatabase at h
  split at h
  · next hslot =>
    obtain rfl := Option.some.inj h
    rw [if_neg fun heq => by rw [heq] at hslot; cases hslot]
  · next name' hslot =>
    obtain ⟨od, od', hod, hod', rfl⟩ := updateDatabase_eq_some_iff.mp h
    obtain ⟨book, -, rfl⟩ := Option.map_eq_some_iff.mp hod'
    by_cases hne : name = name'
    · subst hne
      have hslot' : slot = ⟨some name, true⟩ ↔ slot.isMVCC = true := by
        obtain ⟨database, isMVCC⟩ := slot
        obtain rfl : database = some name := hslot
        simp
      rw [readers_setDatabase_self, readers_of_some hod, Option.map_some]
      by_cases heq : slot = ⟨some name, true⟩
      · rw [if_pos heq, if_pos (hslot'.mp heq), ← readers_endMVCC]
        rfl
      · rw [if_neg heq, if_neg fun hmvcc => heq (hslot'.mpr hmvcc)]
        rfl
    · rw [readers_setDatabase_of_ne hne, if_neg]
      intro heq
      rw [heq] at hslot
      exact hne (Option.some.inj hslot)

/-- A client has a database open once. -/
theorem slot_not_mem {slots : List DatabaseSlot} {slot : DatabaseSlot}
    (hn : ((slot :: slots).filterMap DatabaseSlot.database).Nodup)
    (hslot : slot.database = some name) : ⟨some name, true⟩ ∉ slots := by
  rw [List.filterMap_cons_some hslot] at hn
  exact fun hmem => (List.nodup_cons.mp hn).1 (List.mem_filterMap.mpr ⟨_, hmem, rfl⟩)

/-- What is done once for each database of a client that reads from its kept snapshot. -/
theorem readers_foldlM {f : Server → DatabaseSlot → Option Server} {g : ℕ × Bool → ℕ × Bool}
    {slots : List DatabaseSlot} (h : slots.foldlM f s = some s')
    (hn : (slots.filterMap DatabaseSlot.database).Nodup)
    (hf : ∀ s s' slot, slot ∈ slots → f s slot = some s' → ∀ name, s'.readers name =
      if slot = ⟨some name, true⟩ then (s.readers name).map g else s.readers name)
    (name : DatabaseName) : s'.readers name =
      if ⟨some name, true⟩ ∈ slots then (s.readers name).map g else s.readers name := by
  induction slots generalizing s with
  | nil =>
    obtain rfl := Option.some.inj h
    rw [if_neg List.not_mem_nil]
  | cons slot slots ih =>
    rw [List.foldlM_cons] at h
    obtain ⟨s₁, h₁, h₂⟩ := Option.bind_eq_some_iff.mp h
    have hrest : (slots.filterMap DatabaseSlot.database).Nodup :=
      hn.sublist ((List.sublist_cons_self slot slots).filterMap _)
    rw [ih h₂ hrest fun s s' slot hslot => hf s s' slot (List.mem_cons_of_mem _ hslot),
      hf s s₁ slot List.mem_cons_self h₁ name]
    by_cases hslot : slot = ⟨some name, true⟩
    · rw [if_neg (slot_not_mem hn (by rw [hslot])), if_pos hslot,
        if_pos (hslot ▸ List.mem_cons_self)]
    · simp only [if_neg hslot, List.mem_cons, Ne.symm hslot, false_or]

/-- At the end of a transaction its client stops to read from the databases it has opened so. -/
theorem readers_abortTransaction (h : s.abortTransaction c b = some s')
    (hactive : s.active c = true) (hwf : UsersWF s) (name : DatabaseName) : s'.readers name =
      if ⟨some name, true⟩ ∈ (s.clients c).openDatabases then (s.readers name).map endReading
      else s.readers name := by
  rw [abortTransaction, if_pos hactive] at h
  split at h
  · cases h
  · next s₁ hs₁ =>
    obtain ⟨s₀, hleave, rfl⟩ := Option.map_eq_some_iff.mp hs₁
    refine (sameReaders_foldlM_tryProcessQueuedReads h name).trans ?_
    exact readers_foldlM hleave (hwf.nodup c) (fun _ _ _ _ hstep _ => readers_leaveDatabase hstep)
      name

/-- At the begin of a transaction its client begins to read from the databases it has opened so. -/
theorem readers_clientBeginTransaction {priority : Int}
    (h : s.clientBeginTransaction c priority = some s') (hwf : UsersWF s) (name : DatabaseName) :
    s'.readers name = if ⟨some name, true⟩ ∈ (s.clients c).openDatabases then
      (s.readers name).map beginReading else s.readers name := by
  unfold clientBeginTransaction at h
  dsimp only at h
  refine readers_foldlM h (hwf.nodup c) (fun s₁ s₂ slot _ hstep name => ?_) name
  obtain ⟨database, isMVCC⟩ := slot
  split at hstep
  · next name' hdatabase hmvcc =>
    obtain rfl : database = some name' := hdatabase
    obtain rfl : isMVCC = true := hmvcc
    obtain ⟨od, od', hod, hod', rfl⟩ := updateDatabase_eq_some_iff.mp hstep
    obtain rfl := Option.some.inj hod'
    by_cases hne : name = name'
    · rw [hne, readers_setDatabase_self, readers_of_some hod, if_pos rfl, readers_beginMVCC]
      rfl
    · rw [readers_setDatabase_of_ne hne, if_neg]
      intro heq
      cases heq
      exact hne rfl
  · next hnot =>
    obtain rfl := Option.some.inj hstep
    rw [if_neg]
    intro heq
    cases heq
    exact hnot name rfl rfl

/-! ### What keeps the counts -/

/-- Who reads from kept snapshots is told by the entries of the clients in a transaction. -/
theorem mvccClients_congr (hactive : ∀ c, s'.active c = s.active c)
    (hslots : ∀ c, s.active c = true → (s'.clients c).openDatabases = (s.clients c).openDatabases)
    (name : DatabaseName) : s'.mvccClients name = s.mvccClients name := by
  ext c
  change s'.active c = true ∧ _ ↔ s.active c = true ∧ _
  rw [hactive]
  exact and_congr_right fun hc => by rw [hslots c hc]

namespace MvccWF

/-- The counts agree when clients and readers stay. -/
theorem congr (h : MvccWF s) (hclients : ∀ name, s'.mvccClients name = s.mvccClients name)
    (hreaders : ∀ name r, s'.readers name = some r → s.readers name = some r) : MvccWF s' :=
  ⟨fun name r hr => by
    rw [hclients]
    exact h.counts name r (hreaders name r hr)⟩

/-- The counts agree where the readers and the clients are the same. -/
theorem of_same (h : MvccWF s) (hsame : SameReaders s s') (hclients : s'.clients = s.clients) :
    MvccWF s' :=
  h.congr (mvccClients_congr (fun c => by rw [active, hclients, active])
    fun c _ => by rw [hclients]) fun name _ hr => hsame name ▸ hr

theorem send (h : MvccWF s) (r : Response) : MvccWF (s.send c r) := h.of_same (.refl _) rfl

theorem setClient (h : MvccWF s) {client : Client}
    (hactive : client.hasTransaction = (s.clients c).hasTransaction)
    (hslots : s.active c = true → client.openDatabases = (s.clients c).openDatabases) :
    MvccWF (s.setClient c client) := by
  refine h.congr (mvccClients_congr (fun d => ?_) fun d hd => ?_) fun _ _ hr => hr
  · rw [active_setClient_of_eq hactive]
  · by_cases hdc : d = c
    · subst hdc
      rw [clients_setClient_self, hslots hd]
    · rw [clients_setClient_of_ne hdc]

/-- The client of a transaction that ends reads no more. -/
theorem abortTransaction (h : MvccWF s) (habort : s.abortTransaction c b = some s')
    (hwf : UsersWF s) : MvccWF s' := by
  obtain ⟨-, hclients⟩ := abortTransaction_clients habort hwf
  cases hactive : s.active c with
  | false =>
    rw [Server.abortTransaction, hactive] at habort
    obtain rfl := Option.some.inj habort
    exact h
  | true =>
    have hset : ∀ name, s'.mvccClients name = s.mvccClients name \ {c} := fun name => by
      ext d
      change (s'.clients d).hasTransaction = true ∧ _ ↔ (s.active d = true ∧ _) ∧ d ≠ c
      rw [hclients]
      by_cases hd : d = c
      · subst hd
        simp
      · rw [Function.update_of_ne hd]
        simp [hd, active]
    refine ⟨fun name r hr => ?_⟩
    rw [readers_abortTransaction habort hactive hwf] at hr
    rw [hset]
    split_ifs at hr with hmem
    · obtain ⟨r₀, hr₀, rfl⟩ := Option.map_eq_some_iff.mp hr
      exact (h.counts name r₀ hr₀).endReading ⟨hactive, hmem⟩
    · rw [Set.sdiff_singleton_eq_self fun hc => hmem hc.2]
      exact h.counts name r hr

/-- A deadlock victim is uncounted with its transaction. -/
theorem abortVictim (h : MvccWF s) (habort : s.abortVictim c = some s') (hwf : UsersWF s) :
    MvccWF s' :=
  (h.send _).abortTransaction habort (hwf.send _)

end MvccWF

/-! ### Beginning a transaction -/

/-- Setting the modes of a transaction leaves the readers. -/
theorem sameReaders_setTxnModes {modes : List (DatabaseId × TxnMode)}
    (h : setTxnModes c modes s = some (b, s')) : SameReaders s s' := by
  induction modes generalizing s with
  | nil =>
    cases h
    exact .refl _
  | cons e es ih =>
    rw [setTxnModes] at h
    split at h
    · cases h
      exact .refl _
    · next name hname =>
      split at h
      · cases h
      · next s₁ hs₁ =>
        refine SameReaders.trans ?_ (ih h)
        unfold setTxnMode at hs₁
        obtain ⟨s₀, hs₀, rfl⟩ := Option.map_eq_some_iff.mp hs₁
        have hsame : SameReaders s s₀ := by
          split_ifs at hs₀
          · obtain ⟨od, od', hod, hod', rfl⟩ := updateDatabase_eq_some_iff.mp hs₀
            obtain ⟨book, -, rfl⟩ := Option.map_eq_some_iff.mp hod'
            exact sameReaders_setDatabase hod rfl
          · obtain rfl := Option.some.inj hs₀
            exact .refl _
        exact hsame

/-- Telling sticky locks leaves the readers. -/
theorem sameReaders_constructTransactionBeginResponse {locks : List DatabaseStickyLocks}
    (h : s.constructTransactionBeginResponse c = some (locks, s')) : SameReaders s s' := by
  unfold constructTransactionBeginResponse at h
  refine foldlM_induction (P := fun r => SameReaders s r.2) h (.refl s) fun e _ r r' hstep h1 => ?_
  unfold tellLocks at hstep
  split at hstep
  · cases hstep
  · next od hod =>
    cases hstep
    exact h1.trans (sameReaders_setDatabase hod rfl)

namespace MvccWF

/-- What another client does not see: a client outside of a transaction changes. -/
theorem of_inactive (h : MvccWF s) (hactive : s.active c = false) (hactive' : s'.active c = false)
    (hclients : ∀ d, d ≠ c → s'.clients d = s.clients d)
    (hreaders : ∀ name r, s'.readers name = some r → s.readers name = some r) : MvccWF s' := by
  refine h.congr (mvccClients_congr (fun d => ?_) fun d hd => ?_) hreaders
  · by_cases hdc : d = c
    · rw [hdc, hactive, hactive']
    · rw [active, hclients d hdc, active]
  · have hdc : d ≠ c := fun hdc => by
      rw [hdc, hactive] at hd
      cases hd
    rw [hclients d hdc]

/-- The client of a transaction that begins reads in all its databases that are open for it. -/
theorem clientBeginTransaction {priority : Int} (h : MvccWF s)
    (hbegin : s.clientBeginTransaction c priority = some s') (hactive : s.active c = false)
    (hwf : UsersWF s) : MvccWF s' := by
  obtain ⟨hbegun, hactive'⟩ := clientBeginTransaction_begun hbegin
  have hslots : (s'.clients c).openDatabases = (s.clients c).openDatabases := by
    unfold Server.clientBeginTransaction at hbegin
    dsimp only at hbegin
    refine foldlM_induction (P := fun s' => (s'.clients c).openDatabases =
      (s.clients c).openDatabases) hbegin ?_ fun slot _ s₁ s₂ hstep h1 => ?_
    · rw [clients_setClient_self]
    · split at hstep
      · obtain ⟨od, od', -, -, rfl⟩ := updateDatabase_eq_some_iff.mp hstep
        exact h1
      · obtain rfl := Option.some.inj hstep
        exact h1
  have hset : ∀ name, ⟨some name, true⟩ ∈ (s.clients c).openDatabases →
      s'.mvccClients name = insert c (s.mvccClients name) := fun name hmem => by
    ext d
    change s'.active d = true ∧ _ ↔ d = c ∨ s.active d = true ∧ _
    by_cases hd : d = c
    · subst hd
      refine iff_of_true ⟨hactive', ?_⟩ (Or.inl rfl)
      rwa [hslots]
    · rw [active, hbegun.clients d hd]
      simp [hd, active]
  have hset' : ∀ name, ⟨some name, true⟩ ∉ (s.clients c).openDatabases →
      s'.mvccClients name = s.mvccClients name := fun name hmem => by
    ext d
    change s'.active d = true ∧ _ ↔ s.active d = true ∧ _
    by_cases hd : d = c
    · subst hd
      rw [hslots]
      exact iff_of_false (fun hd => hmem hd.2) fun hd => hmem hd.2
    · rw [active, hbegun.clients d hd, active]
  have hc : ∀ name, c ∉ s.mvccClients name := fun name hc => by
    have htrue : s.active c = true := hc.1
    rw [hactive] at htrue
    cases htrue
  refine ⟨fun name r hr => ?_⟩
  rw [readers_clientBeginTransaction hbegin hwf] at hr
  split_ifs at hr with hmem
  · obtain ⟨r₀, hr₀, rfl⟩ := Option.map_eq_some_iff.mp hr
    rw [hset name hmem]
    exact (h.counts name r₀ hr₀).beginReading (hc name)
  · rw [hset' name hmem]
    exact h.counts name r hr

/-- Beginning a transaction keeps the counts right. -/
theorem handleTransactionBegin {priority : Int} {modes : List (DatabaseId × TxnMode)}
    (h : MvccWF s) (hbegin : s.handleTransactionBegin c priority modes = some s')
    (hwf : UsersWF s) : MvccWF s' := by
  unfold Server.handleTransactionBegin at hbegin
  split_ifs at hbegin with hactive
  · obtain rfl := Option.some.inj hbegin
    exact h.send _
  · have hactive : s.active c = false := Bool.eq_false_of_not_eq_true hactive
    have hmodes : ∀ {b s₁}, setTxnModes c modes s = some (b, s₁) →
        s₁.active c = false ∧ MvccWF s₁ ∧ UsersWF s₁ := fun {b s₁} hs₁ => by
      obtain ⟨hbegun, htxn⟩ := setTxnModes_begun hs₁
      have hactive₁ : s₁.active c = false := htxn.trans hactive
      refine ⟨hactive₁, h.of_inactive hactive hactive₁ hbegun.clients fun name r hr => ?_,
        hbegun.same.usersWF hwf⟩
      rwa [← sameReaders_setTxnModes hs₁ name]
    split at hbegin
    · cases hbegin
    · next s₁ hs₁ =>
      obtain rfl := Option.some.inj hbegin
      exact (hmodes hs₁).2.1.send _
    · next s₁ hs₁ =>
      obtain ⟨hactive₁, h₁, hwf₁⟩ := hmodes hs₁
      split at hbegin
      · cases hbegin
      · next s₂ hs₂ =>
        obtain ⟨⟨locks, s₃⟩, hs₃, rfl⟩ := Option.map_eq_some_iff.mp hbegin
        have h₂ := h₁.clientBeginTransaction hs₂ hactive₁ hwf₁
        exact (h₂.of_same (sameReaders_constructTransactionBeginResponse hs₃)
          (constructTransactionBeginResponse_same hs₃).2).send _

end MvccWF

/-! ### Opening -/

/-- A database is opened without readers. -/
theorem readers_of_opens {db : Database} (h : s.Opens name db) :
    OpenDatabase.readers ⟨db, .empty, [], 1⟩ = (0, false) := by
  have hnone : db.mvccSnapshot = none ∧ db.mvccUseCount = 0 := by
    rcases h with (rfl | hopen) | ⟨f, -, hopen⟩
    · exact ⟨rfl, rfl⟩
    · exact Database.mvcc_of_open hopen
    · exact Database.mvcc_of_open hopen
  rw [OpenDatabase.readers, hnone.1, hnone.2]
  rfl

/-- Closing a database affects the readers of no other one. -/
theorem readers_closeDatabase :
    (s.closeDatabase name).readers name' = if name' = name then none else s.readers name' := by
  rw [readers, closeDatabase_databases, Function.update_apply]
  split_ifs
  · rfl
  · rfl

/-- Nobody begins or ends to read; databases that are not in use may be closed or loaded. -/
def SameUsedReaders (s s' : Server) : Prop := ∀ name, s'.readers name = s.readers name ∨
  s.uses name = 0 ∧ ∀ r ∈ s'.readers name, r = (0, false)

/-- Opening a database affects no database in use. -/
theorem sameUsedReaders_openDatabase {mode : OpenMode} {r : DatabaseOpenResponse.Result}
    (h : s.openDatabase name mode = some (r, s')) : SameUsedReaders s s' := by
  obtain ⟨s₁, hs₁, hs'⟩ := openDatabase_moves h
  have hfirst : ∀ name', s₁.readers name' = s.readers name' ∨
      name' = name ∧ s.uses name' = 0 ∧ s₁.readers name' = none := by
    intro name'
    rcases hs₁ with rfl | ⟨hzero, rfl⟩
    · exact Or.inl rfl
    · rw [readers_closeDatabase]
      split_ifs with hne
      · exact Or.inr ⟨hne, hne ▸ hzero, rfl⟩
      · exact Or.inl rfl
  have hzero : s₁.databases name = none → s.uses name = 0 := by
    rcases hs₁ with rfl | ⟨hzero, rfl⟩
    · intro hnone
      rw [uses, useCount, hnone]
      rfl
    · exact fun _ => hzero
  intro name'
  have hother : s'.readers name' = s₁.readers name' → s'.readers name' = s.readers name' ∨
      s.uses name' = 0 ∧ ∀ r ∈ s'.readers name', r = (0, false) := by
    intro hsame
    rw [hsame]
    rcases hfirst name' with heq | ⟨-, huse, hnone⟩
    · exact Or.inl heq
    · rw [hnone]
      exact Or.inr ⟨huse, by rintro _ ⟨⟩⟩
  rcases hs' with rfl | ⟨db, hnone, hdb, rfl⟩ | ⟨od, hod, rfl⟩
  · exact hother rfl
  · by_cases hne : name' = name
    · subst hne
      refine Or.inr ⟨hzero hnone, fun r hr => ?_⟩
      rw [readers_setDatabase_self, readers_of_opens hdb] at hr
      exact (Option.some.inj hr).symm
    · exact hother (readers_setDatabase_of_ne hne)
  · have hsame : SameReaders s₁ (s₁.setDatabase name { od with useCount := od.useCount + 1 }) :=
      sameReaders_setDatabase hod rfl
    exact hother (hsame name')

/-- Releasing leaves the readers of the databases that stay. -/
theorem readers_release {r : ℕ × Bool} (h : s.release name = some s')
    (hr : s'.readers name' = some r) : s.readers name' = some r := by
  unfold release at h
  split at h
  · cases h
  · next od hod =>
    obtain rfl := Option.some.inj h
    have hsame : SameReaders s (s.setDatabase name { od with useCount := od.useCount - 1 }) :=
      sameReaders_setDatabase hod rfl
    split_ifs at hr
    · rw [readers_closeDatabase] at hr
      split_ifs at hr
      exact hsame name' ▸ hr
    · exact hsame name' ▸ hr

/-- The new entry is added to the others. -/
theorem mem_enterDatabase {slots slots' : List DatabaseSlot} {slot e : DatabaseSlot}
    (h : enterDatabase slots slot = some (id, slots')) (he : e.database ≠ none) :
    e ∈ slots' ↔ e = slot ∨ e ∈ slots := by
  unfold enterDatabase at h
  split at h
  · next i hi =>
    cases h
    obtain ⟨hlt, hnone, -⟩ := List.findIdx?_eq_some_iff_getElem.mp hi
    have hne : e ≠ slots[id] := fun heq => by
      rw [heq] at he
      exact he (Option.isNone_iff_eq_none.mp hnone)
    constructor
    · intro hmem
      exact (List.mem_or_eq_of_mem_set hmem).symm
    · rintro (rfl | hmem)
      · exact List.mem_set hlt e
      · obtain ⟨j, hj, rfl⟩ := List.getElem_of_mem hmem
        have hij : id ≠ j := fun hij => hne (by simp only [hij])
        exact List.mem_iff_getElem?.mpr ⟨j, by
          rw [List.getElem?_set_ne hij, List.getElem?_eq_getElem hj]⟩
  · split_ifs at h
    cases h
    rw [List.mem_append, List.mem_singleton]
    exact or_comm

namespace MvccWF

/-- The counts agree where the databases in use have the same readers. -/
theorem of_used (h : MvccWF s) (hwf : UsersWF s) (hclients : s'.clients = s.clients)
    (hreaders : SameUsedReaders s s') : MvccWF s' := by
  have hset : ∀ name, s'.mvccClients name = s.mvccClients name :=
    mvccClients_congr (fun c => by rw [active, hclients, active]) fun c _ => by rw [hclients]
  refine ⟨fun name r hr => ?_⟩
  rw [hset]
  rcases hreaders name with hsame | ⟨hzero, hnone⟩
  · exact h.counts name r (hsame ▸ hr)
  · obtain rfl := hnone r hr
    have hempty : s.mvccClients name = ∅ := Set.eq_empty_iff_forall_notMem.mpr fun c hc =>
      hwf.forall_not_mem hzero c (mem_openNames_of_mvcc hc)
    rw [hempty]
    exact ⟨Set.encard_empty, iff_of_false Bool.false_ne_true (Nat.lt_irrefl 0)⟩

/-- Releasing a database keeps the counts. -/
theorem release (h : MvccWF s) (hrelease : s.release name = some s') : MvccWF s' := by
  have hclients := (releasedOnce hrelease).clients
  refine h.congr (mvccClients_congr (fun c => ?_) fun c _ => by rw [hclients]) fun name' r hr => ?_
  · rw [active, hclients, active]
  · exact readers_release hrelease hr

/-- A client opens a database, in a transaction or not. -/
theorem entered {mvcc : Bool} {slots : List DatabaseSlot} (h : MvccWF s)
    (hslots : enterDatabase (s.clients c).openDatabases ⟨some name, mvcc⟩ = some (id, slots))
    (hnew : name ∉ s.openNames c)
    (hclients : s'.clients = Function.update s.clients c
      { s.clients c with openDatabases := slots })
    (hreaders : ∀ name', s'.readers name' =
      if name' = name ∧ s.active c = true ∧ mvcc = true then (s.readers name').map beginReading
      else s.readers name') : MvccWF s' := by
  have hself : s'.clients c = { s.clients c with openDatabases := slots } := by
    rw [hclients, Function.update_self]
  have hother : ∀ d, d ≠ c → s'.clients d = s.clients d := fun d hd => by
    rw [hclients, Function.update_of_ne hd]
  have hc : c ∉ s.mvccClients name := fun hc => hnew (mem_openNames_of_mvcc hc)
  have hset : ∀ name', s'.mvccClients name' =
      if name' = name ∧ s.active c = true ∧ mvcc = true then insert c (s.mvccClients name')
      else s.mvccClients name' := by
    intro name'
    ext d
    by_cases hd : d = c
    · subst hd
      have hmem : d ∈ s'.mvccClients name' ↔ s.active d = true ∧
          (⟨some name', true⟩ = (⟨some name, mvcc⟩ : DatabaseSlot) ∨
            ⟨some name', true⟩ ∈ (s.clients d).openDatabases) := by
        change s'.active d = true ∧ _ ↔ _
        rw [active, hself, mem_enterDatabase hslots (Option.some_ne_none name')]
        rfl
      rw [hmem]
      split_ifs with hcase
      · obtain ⟨rfl, hactive, rfl⟩ := hcase
        exact iff_of_true ⟨hactive, Or.inl rfl⟩ (Set.mem_insert d _)
      · refine and_congr_right fun hactive => or_iff_right fun heq => ?_
        rw [DatabaseSlot.mk.injEq] at heq
        exact hcase ⟨Option.some.inj heq.1, hactive, heq.2.symm⟩
    · have hmem : d ∈ s'.mvccClients name' ↔ d ∈ s.mvccClients name' := by
        change s'.active d = true ∧ _ ↔ s.active d = true ∧ _
        rw [active, hother d hd, active]
      rw [hmem]
      split_ifs
      · rw [Set.mem_insert_iff, or_iff_right hd]
      · rfl
  refine ⟨fun name' r hr => ?_⟩
  rw [hreaders] at hr
  rw [hset]
  split_ifs at hr ⊢ with hcase
  · obtain ⟨r₀, hr₀, rfl⟩ := Option.map_eq_some_iff.mp hr
    exact (h.counts name' r₀ hr₀).beginReading (hcase.1 ▸ hc)
  · exact h.counts name' r hr

/-- Opening a database keeps the counts right. -/
theorem handleDatabaseOpen {mode : OpenMode} {mvcc : Bool} (h : MvccWF s)
    (hopen : s.handleDatabaseOpen c name mode mvcc = some s') (hwf : UsersWF s) : MvccWF s' := by
  unfold Server.handleDatabaseOpen at hopen
  split at hopen
  · cases hopen
  · next s₁ hopen₁ =>
    rcases openDatabase_eq_some hopen₁ with ⟨-, ho⟩ | ⟨hne, -⟩
    swap
    · exact absurd rfl hne
    have h₁ : MvccWF s₁ := h.of_used hwf ho.clients (sameUsedReaders_openDatabase hopen₁)
    split_ifs at hopen with hmem
    · exact (h₁.send _).release hopen
    · split at hopen
      · exact (h₁.send _).release hopen
      · next i slots hslots =>
        set s₂ := (s₁.setClient c { s₁.clients c with openDatabases := slots }).send c
          (.databaseOpen .success i) with hs₂
        have hactive : (s₂.clients c).hasTransaction = s₁.active c := by
          rw [hs₂, clients_send, clients_setClient_self]
          rfl
        replace hopen : (if (s₂.clients c).hasTransaction = true ∧ mvcc = true then
          s₂.updateDatabase (fun od => some { od with database := od.database.beginMVCC }) name
          else some s₂) = some s' := hopen
        rw [hactive] at hopen
        split_ifs at hopen with hbegins
        · obtain ⟨od, od', hod, hod', rfl⟩ := updateDatabase_eq_some_iff.mp hopen
          obtain rfl := Option.some.inj hod'
          refine h₁.entered hslots hmem rfl fun name' => ?_
          by_cases hne : name' = name
          · subst hne
            have hod₁ : s₁.databases name' = some od := hod
            rw [readers_setDatabase_self, readers_beginMVCC, if_pos ⟨rfl, hbegins⟩,
              readers_of_some hod₁]
            rfl
          · rw [readers_setDatabase_of_ne hne, if_neg fun hcase => hne hcase.1]
            rfl
        · obtain rfl := Option.some.inj hopen
          refine h₁.entered hslots hmem rfl fun name' => ?_
          rw [if_neg fun hcase => hbegins hcase.2]
          rfl
  · next r s₁ hne hopen₁ =>
    obtain rfl := Option.some.inj hopen
    have hclients : s₁.clients = s.clients := by
      rcases openDatabase_eq_some hopen₁ with ⟨hr, -⟩ | ⟨-, rfl | ⟨-, rfl⟩⟩
      · exact absurd hr hne
      · rfl
      · exact closeDatabase_clients
    exact (h.of_used hwf hclients (sameUsedReaders_openDatabase hopen₁)).send _

end MvccWF

/-! ### Closing and the other events -/

/-- Leaving a database leaves the readers. -/
theorem sameReaders_leaving (h : s.leaving c id name = some s') : SameReaders s s' := by
  unfold leaving at h
  obtain ⟨s₁, hs₁, rfl⟩ := Option.map_eq_some_iff.mp h
  obtain ⟨od, od', hod, hod', rfl⟩ := updateDatabase_eq_some_iff.mp hs₁
  obtain ⟨book, -, rfl⟩ := Option.map_eq_some_iff.mp hod'
  exact sameReaders_setDatabase hod rfl

/-- Reads that wait too long are answered, which leaves the readers. -/
theorem sameReaders_checkForLockTimeouts {due : BlobsRead → Bool}
    (h : s.checkForLockTimeouts name due = some s') : SameReaders s s' := by
  unfold checkForLockTimeouts at h
  split at h
  · obtain rfl := Option.some.inj h
    exact .refl _
  · next od hod =>
    obtain rfl := Option.some.inj h
    have hfold : ∀ (qs : List BlobsRead) (s : Server),
        (qs.foldl (fun s m => s.sendError m.clientId .lockTimeout) s).databases = s.databases :=
      fun qs => by
        induction qs with
        | nil => exact fun s => rfl
        | cons q qs ih => exact fun s => ih (s.sendError q.clientId .lockTimeout)
    set s₁ := (od.queuedReads.filter fun m => 0 < m.lockTimeoutMs && due m).foldl
      (fun s m => s.sendError m.clientId .lockTimeout) s with hs₁
    have hdatabases : s₁.databases = s.databases := hfold _ s
    have hsent : SameReaders s s₁ := fun name => readers_congr (congrFun hdatabases name)
    have hod₁ : s₁.databases name = some od := by rw [hdatabases, hod]
    exact hsent.trans (sameReaders_setDatabase hod₁ rfl)

namespace MvccWF

/-- A client without a transaction leaves a database, which keeps the counts. -/
theorem leaving (h : MvccWF s) (hleaving : s.leaving c id name = some s')
    (hactive : s.active c = false) (hname : s.getDatabase c id = some name) : MvccWF s' := by
  have hl : Left c id name s s' := left_of_leaving hleaving hname
  refine h.of_inactive hactive ?_ (fun _ => hl.clients_of_ne) fun name r hr => ?_
  · rw [active, hl.clients_self]
    exact hactive
  · rwa [← sameReaders_leaving hleaving name]

/-- Closing a database outside a transaction keeps the counts. -/
theorem clientCloseDatabase (h : MvccWF s) (hclose : s.clientCloseDatabase c id = some s')
    (hactive : s.active c = false) : MvccWF s' := by
  obtain ⟨name, s₁, hname, hleaving, hrelease⟩ := clientCloseDatabase_eq_some hclose
  exact (h.leaving hleaving hactive hname).release hrelease

/-- Closing all databases of a client keeps the counts right. -/
theorem closeAllDatabases (h : MvccWF s) (hclose : s.closeAllDatabases c = some s')
    (hactive : s.active c = false) (hwf : UsersWF s) : MvccWF s' := by
  refine (foldlM_induction (P := fun s' => MvccWF s' ∧ UsersWF s' ∧ s'.active c = false) hclose
    ⟨h, hwf, hactive⟩ fun i _ s₁ s₂ hstep ⟨h1, h2, h3⟩ => ?_).1
  split_ifs at hstep
  · obtain ⟨h4, h5, -⟩ := clientCloseDatabase_calm hstep h2
    exact ⟨h1.clientCloseDatabase hstep h3, h4, h5.hasTransaction.trans h3⟩
  · obtain rfl := Option.some.inj hstep
    exact ⟨h1, h2, h3⟩

/-- Closing a database keeps the counts right. -/
theorem handleDatabaseClose (h : MvccWF s) (hclose : s.handleDatabaseClose c id = some s') :
    MvccWF s' := by
  unfold Server.handleDatabaseClose at hclose
  split_ifs at hclose with hactive
  · obtain rfl := Option.some.inj hclose
    exact h.send _
  · split at hclose
    · obtain rfl := Option.some.inj hclose
      exact h.send _
    · obtain ⟨s₁, h₁, rfl⟩ := Option.map_eq_some_iff.mp hclose
      exact (h.clientCloseDatabase h₁ (Bool.eq_false_iff.mpr hactive)).send _

/-- Aborting the victims of a deadlock keeps the counts right. -/
theorem foldlM_abortVictim {vs : List ClientId} (h : MvccWF s)
    (hvictims : vs.foldlM Server.abortVictim s = some s') (hwf : UsersWF s) : MvccWF s' := by
  refine (foldlM_induction (P := fun s' => MvccWF s' ∧ UsersWF s') hvictims ⟨h, hwf⟩
    fun v _ s₁ s₂ hstep ⟨h1, h2⟩ => ?_).1
  exact ⟨h1.abortVictim hstep h2, (abortTransaction_clients hstep (h2.send _)).1⟩

/-- A read keeps the counts right. -/
theorem handleBlobsRead (h : MvccWF s) (hread : s.handleBlobsRead m = some s')
    (hwf : UsersWF s) : MvccWF s' := by
  rcases handleBlobsRead_eq_some hread with htry | ⟨s₁, htry, rfl⟩ | ⟨vs, s₂, hvs, hfold⟩
  · exact h.of_same htry.sameReaders htry.tried.kept.clients
  · exact (h.of_same htry.sameReaders htry.tried.kept.clients).send _
  · obtain ⟨hwf₂, hclients, -, -⟩ := (foundVictims hvs).waiting hwf
    obtain ⟨s₁, name, od, htry, -, hod, rfl, -⟩ := (foundVictims hvs).queued
    have hqueued : SameReaders s₁
        (s₁.setDatabase name { od with queuedReads := od.queuedReads ++ [m] }) :=
      sameReaders_setDatabase hod rfl
    have h₂ := h.of_same (htry.sameReaders.trans hqueued) hclients
    exact h₂.foldlM_abortVictim hfold hwf₂

/-- The end of a commit, applied or rejected, is the end of the transaction. -/
theorem finishCommit {σ : DatabaseName → Schedule} {ms : List TransactionCommit} (h : MvccWF s)
    (hfinish : s.finishCommit c σ ms = some s') (hwf : UsersWF s) : MvccWF s' := by
  have hclear : ∀ s₁, SameReaders s s₁ → s₁.clients = s.clients →
      MvccWF (s₁.setClient c { s₁.clients c with commitMessages := [] }) := fun s₁ h1 h2 =>
    (h.of_same h1 h2).setClient rfl fun _ => rfl
  have hreject : ∀ (s₁ : Server) (r : TransactionCommitResponse.Result), SameReaders s s₁ →
      s₁.clients = s.clients → UsersWF s₁ →
      ((s₁.send c (.transactionCommit r [])).setClient c
        { (s₁.send c (.transactionCommit r [])).clients c with commitMessages := [] }
          ).abortTransaction c true = some s' → MvccWF s' := by
    intro s₁ r h1 h2 hwf₁ habort
    have hwf₂ : UsersWF (s₁.send c (.transactionCommit r [])) := hwf₁.send _
    exact (hclear (s₁.send c (.transactionCommit r [])) h1 h2).abortTransaction habort
      (hwf₂.setClient rfl)
  unfold Server.finishCommit at hfinish
  dsimp only at hfinish
  split at hfinish
  · exact hreject s _ (.refl s) rfl hwf hfinish
  · next gs hgs =>
    split at hfinish
    · cases hfinish
    · next ls s₁ hvalid =>
      obtain ⟨hsame, hclients⟩ := validateCommitMessages_same hvalid
      split at hfinish
      · cases hfinish
      · next commits s₂ hcommit =>
        have h₁ := hclear s₁ (sameReaders_validateCommitMessages hvalid) hclients
        have h₂ := h₁.of_same (sameReaders_commitDatabases hcommit) (commitDatabases_same hcommit).2
        have hwf₁ : UsersWF (s₁.setClient c { s₁.clients c with commitMessages := [] }) :=
          (hsame.usersWF hwf).setClient rfl
        have hwf₂ : UsersWF s₂ := (commitDatabases_same hcommit).1.usersWF hwf₁
        exact (h₂.send _).abortTransaction hfinish (hwf₂.send _)
    · next r ls s₁ hne hvalid =>
      obtain ⟨hsame, hclients⟩ := validateCommitMessages_same hvalid
      exact hreject s₁ r (sameReaders_validateCommitMessages hvalid) hclients (hsame.usersWF hwf)
        hfinish

/-- A commit keeps the counts right. -/
theorem handleTransactionCommit {σ : DatabaseName → Schedule} {m : TransactionCommit}
    (h : MvccWF s) (hcommit : s.handleTransactionCommit c m σ = some s') (hwf : UsersWF s) :
    MvccWF s' := by
  unfold Server.handleTransactionCommit at hcommit
  split_ifs at hcommit with hactive hfollow
  · obtain rfl := Option.some.inj hcommit
    exact h.send _
  · obtain rfl := Option.some.inj hcommit
    exact h.setClient rfl fun _ => rfl
  · have h₁ : MvccWF (s.setClient c
        { s.clients c with commitMessages := (s.clients c).commitMessages ++ [m] }) :=
      h.setClient rfl fun _ => rfl
    exact h₁.finishCommit hcommit (hwf.setClient rfl)

end MvccWF

/-- The readers are counted in every run. -/
theorem Step.mvccWF {e : Event} (hstep : Step s e s') (hwf : UsersWF s) (h : MvccWF s) :
    MvccWF s' := by
  obtain ⟨-, hhandle⟩ := hstep
  cases e with
  | connectionOpened c =>
    rw [handle] at hhandle
    obtain rfl := Option.some.inj hhandle
    exact h.setClient rfl fun _ => rfl
  | connectionClosed c =>
    change s.handleConnectionClosed c = some s' at hhandle
    unfold handleConnectionClosed at hhandle
    split at hhandle
    · cases hhandle
    · next s₁ habort =>
      obtain ⟨s₂, hclose, rfl⟩ := Option.map_eq_some_iff.mp hhandle
      have hactive : s₁.active c = false := inactive_of_abortTransaction habort hwf
      have hwf₁ : UsersWF s₁ := (abortTransaction_clients habort hwf).1
      exact ((h.abortTransaction habort hwf).closeAllDatabases hclose hactive hwf₁).setClient rfl
        fun _ => rfl
  | databaseOpen c name mode mvcc => exact h.handleDatabaseOpen hhandle hwf
  | databaseClose c id => exact h.handleDatabaseClose hhandle
  | blobsRead m => exact h.handleBlobsRead hhandle hwf
  | transactionBegin c priority modes => exact h.handleTransactionBegin hhandle hwf
  | transactionAbort c => exact h.abortTransaction hhandle hwf
  | transactionCommit c m σ => exact h.handleTransactionCommit hhandle hwf
  | lockTimeouts name due =>
    exact h.of_same (sameReaders_checkForLockTimeouts hhandle)
      (checkForLockTimeouts_eq_some hhandle).1
  | delayedClose name =>
    rw [handle] at hhandle
    split at hhandle
    · obtain rfl := Option.some.inj hhandle
      exact h
    · next od hod =>
      obtain rfl := Option.some.inj hhandle
      split_ifs with hzero
      · refine h.of_used hwf closeDatabase_clients fun name' => ?_
        rw [readers_closeDatabase]
        split_ifs with hne
        · exact Or.inr ⟨hne ▸ (uses_of_some hod).trans hzero, by rintro _ ⟨⟩⟩
        · exact Or.inl rfl
      · exact h

end Server

end BlobsDb
