import BlobsDb.Server.Persisting

/-!
# Databases that are closed and opened again

As long as all commits are proper, what a commit copies has been loaded. Thus every byte of a file
has exactly one use (`spaceExact_of_proper`), and a database in a file, which is loaded step by step
and may be closed and opened again at any time, has the same content as one in memory that gets the
same commits and is never closed (`mirrors_of_proper`).

If a commit lowers a next free id again, the objects above it are created once more by a later
commit. If the file was opened again in between, their old content is not loaded and is lost.
-/

namespace BlobsDb

open DbTree (BelowNextFree)

namespace Database

variable {db db' : Database} {t t' : Tree 3} {us : List BlobData} {σ : Schedule}

/-- The content of a database: its ids, next free ids and blobs, and the commits they are from. -/
def logical (db : Database) : Option (DbTree CommitId 3) := (db.tree db.snapshot).map Tree.logical

/-- A database in memory, after some commits. -/
structure InMemory (db : Database) : Prop where
  reachable : db.Reachable fun _ _ => True
  storage : db.storage = none

theorem Inv.logical (h : db.Inv t) : db.logical = some (Tree.logical t) := by
  rw [Database.logical, h.view]
  rfl

theorem Inv.commitId_eq_of_logical (h : db.Inv t) (h' : db'.Inv t')
    (heq : Tree.logical t = Tree.logical t') : db.commitId = db'.commitId := by
  have hmark : (Tree.logical t).mark = (Tree.logical t').mark := congrArg _ heq
  calc db.commitId = t.mark.commitId := h.mark_commitId.symm
    _ = t'.mark.commitId := hmark
    _ = db'.commitId := h'.mark_commitId

theorem inMemory_initializeInMemory : initializeInMemory.InMemory :=
  ⟨⟨_, Or.inl rfl, .refl⟩, rfl⟩

/-- A commit of a database in memory succeeds, as long as there are commit ids. -/
theorem InMemory.commit (h : db.InMemory) (hinv : db.Inv t)
    (hlimit : db.commitId + 1 < unknownCommitId) (us : List BlobData) (σ : Schedule) :
    ∃ db' deleted, db.commit us σ = some (db', deleted) ∧ db'.InMemory ∧
      db'.logical = some (DbTree.updates (db.commitId + 1) us (Tree.logical t)) := by
  obtain ⟨r, hr⟩ := hinv.exists_calculateCommitResult hlimit us σ
  have hnone : r.delta = none ∧ r.freeList = none := by
    have hr := hr
    rw [calculateCommitResult] at hr
    split at hr
    · cases hr
    · next st hst =>
      have hdelta : st.delta.isSome = false := by
        rw [CommitState.isSome_delta_applyUpdates hst, beginCommit, h.storage]
        rfl
      rw [h.storage] at hr
      obtain rfl := Option.some.inj hr
      exact ⟨Option.not_isSome_iff_eq_none.mp (Bool.eq_false_iff.mp hdelta), rfl⟩
  have hwalks : ∀ δ ∈ r.delta, σ.Walks δ := fun δ hδ => by
    rw [hnone.1] at hδ
    cases hδ
  have hend : ∀ L ∈ r.freeList, L.endOffset < 2 ^ 64 := fun L hL => by
    rw [hnone.2] at hL
    cases hL
  obtain ⟨t', lost, hcommitted, hclean⟩ := hinv.commit hlimit hr hwalks hend
  obtain ⟨hlogical, -⟩ := hclean (hinv.copiesLoaded_of_none h.storage us)
  refine ⟨db.applyToDatabase r σ, r.deleted, ?_, ⟨?_, ?_⟩, ?_⟩
  · rw [Database.commit, hr]
    refine if_pos ⟨hlimit, fun δ hδ => ?_, hend⟩
    exact ⟨(hwalks δ hδ).allocated, (hwalks δ hδ).released, (hwalks δ hδ).stored⟩
  · exact h.reachable.step (.commit trivial ⟨hlimit, hr, hwalks, hend⟩)
  · exact Inv.storage_applyToDatabase_of_none h.storage
  · rw [hcommitted.inv.logical, hlogical]

end Database

namespace Server

variable {s s' : Server} {c : ClientId} {name : DatabaseName} {od od' : OpenDatabase}
  {m : Option Database}

/-! ### The database in memory -/

/-- The messages of a valid commit, for each of its databases, and the server after they were
validated. -/
def valid (c : ClientId) (ms : List TransactionCommit) (s : Server) :
    Option (List (DatabaseId × List TransactionCommit) × Server) :=
  match groupByDatabase [] ms with
  | none => none
  | some gs =>
    match s.validateCommitMessages c gs with
    | some (.success, _, s) => some (gs, s)
    | _ => none

/-- The messages of a commit that is accepted. -/
def accepted (c : ClientId) (m : TransactionCommit) (s : Server) :
    Option (List (DatabaseId × List TransactionCommit) × Server) :=
  let ms := (s.clients c).commitMessages ++ [m]
  if !s.active c || m.hasFollowMessage then none
  else (s.setClient c { s.clients c with commitMessages := ms }).valid c ms

/-- The entries that an event commits to a database. -/
def committed (s : Server) (name : DatabaseName) : Event → Option (List BlobData × Schedule)
  | .transactionCommit c m σ =>
    (s.accepted c m).bind fun r => (r.1.find? fun g => s.getDatabase c g.1 = some name).map fun g =>
      (g.2.flatMap TransactionCommit.blobs, σ name)
  | _ => none

/-- A database in memory that gets the same commits as a database of the server, and is never
closed. -/
def mirror (name : DatabaseName) (s : Server) (e : Event) (m : Option Database) : Option Database :=
  if s.creates name e then some .initializeInMemory
  else
    match s.committed name e with
    | none => m
    | some (us, σ) => m.bind fun db => (db.commit us σ).map Prod.fst

theorem valid_of_success {ms : List TransactionCommit}
    {gs : List (DatabaseId × List TransactionCommit)} {ls : List (DatabaseId × List BlobLocation)}
    (hgs : groupByDatabase [] ms = some gs)
    (hvalid : s.validateCommitMessages c gs = some (.success, ls, s')) :
    s.valid c ms = some (gs, s') := by
  rw [valid, hgs]
  dsimp only
  rw [hvalid]

theorem valid_eq_none {ms : List TransactionCommit}
    (h : ∀ gs ls s', groupByDatabase [] ms = some gs →
      s.validateCommitMessages c gs ≠ some (.success, ls, s')) : s.valid c ms = none := by
  unfold valid
  split
  · rfl
  · next gs hgs =>
    split
    · next hvalid => exact absurd hvalid (h gs _ _ hgs)
    · rfl

/-- A step of the server, and of the database in memory beside it. -/
def stepWith (name : DatabaseName) (p : Server × Option Database) (e : Event) :
    Option (Server × Option Database) :=
  (p.1.step e).map fun s => (s, p.1.mirror name e p.2)

/-- The database in memory has the content of the one in a file, which may be open or not. -/
structure Mirrors (s : Server) (name : DatabaseName) (m : Option Database) : Prop where
  stored : ∀ od, s.databases name = some od → od.database.storage.isSome = true
  opened : ∀ od, s.databases name = some od →
    ∃ db, m = some db ∧ db.InMemory ∧ db.logical = od.database.logical
  closed : ∀ f od, s.databases name = none → s.files name = some f →
    Database.readInitialFileDatabaseData f = some od →
    ∃ db, m = some db ∧ db.InMemory ∧ db.logical = od.logical

theorem Mirrors.congr (h : Mirrors s name m) (hd : s'.databases name = s.databases name)
    (hf : s'.files name = s.files name) : Mirrors s' name m where
  stored od hod := h.stored od (hd ▸ hod)
  opened od hod := h.opened od (hd ▸ hod)
  closed f od hnone hfile := h.closed f od (hd ▸ hnone) (hf ▸ hfile)

/-- The tree has the content of the database in memory. -/
def Mirrored (m : Option Database) (t : Tree 3) : Prop :=
  ∃ db, m = some db ∧ db.InMemory ∧ db.logical = some (Tree.logical t)

theorem mirrors_iff {n : ℕ} (hs : Healthy s) :
    Mirrors s (.file n) m ↔ Persists True (Mirrored m) s (.file n) := by
  have hlogical : ∀ db : Database, (∃ t, db.Inv t) →
      ((∃ db', m = some db' ∧ db'.InMemory ∧ db'.logical = db.logical) ↔
        ∃ t, db.Inv t ∧ Mirrored m t) := fun db ⟨t, hinv⟩ => by
    refine ⟨fun h => ⟨t, hinv, ?_⟩, fun ⟨t', hinv', h⟩ => ?_⟩
    · rw [Mirrored, ← hinv.logical]
      exact h
    · rw [hinv'.logical]
      exact h
  refine ⟨fun h => ⟨fun _ _ => h.stored, fun od hod => ?_, fun _ f db hnone hf hread => ?_⟩,
    fun h => ⟨h.stored n rfl, fun od hod => ?_, fun f db hnone hf hread => ?_⟩⟩
  · exact (hlogical _ (hs.exists_inv hod)).mp (h.opened od hod)
  · have hdb : db.Reachable _ := Opens.reachable (Or.inr ⟨f, hf, hread⟩) hs
    exact (hlogical _ hdb.exists_inv).mp (h.closed f db hnone hf hread)
  · have hod' := h.opened od hod
    exact (hlogical _ (hod'.imp fun _ => And.left)).mpr hod'
  · have hdb := h.closed trivial f db hnone hf hread
    exact (hlogical _ (hdb.imp fun _ => And.left)).mpr hdb

theorem Mirrored.onFile {t : Tree 3} (h : Mirrored m t) : Mirrored m t.onFile := by
  rw [Mirrored, Tree.logical_onFile]
  exact h

theorem Moves.mirrors {n : ℕ} (hmoves : Moves .noOpens s s') (hs : Healthy s)
    (h : Mirrors s (.file n) m) : Mirrors s' (.file n) m :=
  (mirrors_iff (Moves.healthy hmoves hs)).mpr
    (((mirrors_iff hs).mp h).moves (fun _ => ⟨n, rfl⟩) (fun _ _ => Mirrored.onFile) hmoves hs)

/-! ### Opening -/

theorem mirrored_initialize {db : Database} (h : Database.readInitialFileDatabaseData
    Database.initializeDatabaseFile = some db) :
    ∃ t, db.Inv t ∧ Mirrored (some .initializeInMemory) t := by
  obtain ⟨db', h1, h2, -, -⟩ := Initial.exists_readInitialFileDatabaseData
  obtain rfl := Option.some.inj (h1.symm.trans h)
  refine ⟨_, h2, _, rfl, Database.inMemory_initializeInMemory, ?_⟩
  rw [Database.inv_initializeInMemory.logical, Tree.logical_onFile]
  rfl

theorem Mirrors.openDatabase {n : ℕ} {mode : OpenMode} {r : DatabaseOpenResponse.Result}
    (h : Mirrors s (.file n) m) (hwf : UsersWF s) (hs : Healthy s)
    (hopen : s.openDatabase name mode = some (r, s')) (c : ClientId) (mvcc : Bool) :
    Mirrors s' (.file n) (if s.creates (.file n) (.databaseOpen c name mode mvcc) then
      some .initializeInMemory else m) := by
  have hs' : Healthy s' := (moves_openDatabase (P := .noCommits) hopen hwf trivial).healthy hs
  refine (mirrors_iff hs').mpr ?_
  cases hcreates : s.creates (.file n) (.databaseOpen c name mode mvcc) with
  | false =>
    exact ((mirrors_iff hs).mp h).openDatabase (fun _ => ⟨n, rfl⟩) hopen
      fun _ => ⟨trivial, hcreates⟩
  | true =>
    obtain ⟨s₁, db, hread, rfl⟩ := openDatabase_of_creates hopen hcreates
    obtain ⟨t, hinv, ht⟩ := mirrored_initialize hread
    exact .setDatabase (fun _ _ => Database.isSome_storage_of_open hread) hinv ht

/-! ### Committing -/

/-- What a proper commit copies has been loaded, and the database in memory commits it too. -/
theorem Ordered.mirror (h : Ordered s) {g : DatabaseId × List TransactionCommit}
    {ls : List BlobLocation} {σ : Schedule} {od₀ : OpenDatabase}
    (hv : Validates s c g ls name od₀ od) (hproper : s.PermitsCommit DbTree.Proper c g)
    (hcommit : Server.commitDatabase c (g.2.flatMap TransactionCommit.blobs) σ ls od = some od')
    {db : Database} (hdb : db.InMemory) (hlogical : db.logical = od.database.logical) :
    ∃ db' deleted, db.commit (g.2.flatMap TransactionCommit.blobs) σ = some (db', deleted) ∧
      db'.InMemory ∧ db'.logical = od'.database.logical := by
  obtain ⟨t, created, -, hpasses, hbelow, hproper, -⟩ := h.passes hv hproper
  obtain ⟨r, book, hcommits, -, rfl⟩ := commitDatabase_eq_some hcommit
  have hadm := hpasses.admissible hbelow hproper.orderly.2
  obtain ⟨t', hinv', -, hlogical', -, -⟩ := hpasses.exists_commit hadm hcommits
  have hinv : od.database.Inv t := hpasses.ledger.inv
  obtain ⟨tm, hinvm⟩ := hdb.reachable.exists_inv
  have heq : Tree.logical tm = Tree.logical t := by
    rw [hinvm.logical, hinv.logical] at hlogical
    exact Option.some.inj hlogical
  have hids : db.commitId = od.database.commitId := hinvm.commitId_eq_of_logical hinv heq
  obtain ⟨db', deleted, hdb', hmem, hresult⟩ :=
    hdb.commit hinvm (hids ▸ hcommits.commitId) (g.2.flatMap TransactionCommit.blobs) σ
  refine ⟨db', deleted, hdb', hmem, ?_⟩
  rw [hresult, heq, hids, hinv'.logical, hlogical']

theorem Mirrors.commitsApplied {n : ℕ} (hord : Ordered s) (h : Mirrors s (.file n) m) {σ : DatabaseName → Schedule}
    {gs : List (DatabaseId × List TransactionCommit)} {ls : List (DatabaseId × List BlobLocation)}
    {s₁ s₂ : Server} {commits : List (DatabaseId × CommitId)}
    (happlied : AppliesCommit s c σ gs ls s₁ s₂ commits)
    (hgroups : (gs.zip (ls.map Prod.snd)).map Prod.fst = gs)
    (hproper : ∀ g ∈ gs, s.PermitsCommit DbTree.Proper c g) :
    Mirrors s₂ (.file n)
      (match (gs.find? fun g => s.getDatabase c g.1 = some (.file n)).map fun g =>
        (g.2.flatMap TransactionCommit.blobs, σ (.file n)) with
      | none => m
      | some (us, σ) => m.bind fun db => (db.commit us σ).map Prod.fst) := by
  have h₁ : Mirrors s₁ (.file n) m :=
    (happlied.prepares.moves.mono (Permit.noBegins_le trivial)).mirrors hord.healthy h
  obtain ⟨hfiles, hother, hsame⟩ :=
    databases_commitDatabases (.file n) happlied.applied happlied.usersWF happlied.nodup_zip
  cases hfind : gs.find? fun g => s.getDatabase c g.1 = some (.file n) with
  | none =>
    refine h₁.congr (hother fun p hp hname => ?_) (by rw [hfiles])
    rw [happlied.getDatabase] at hname
    have := List.find?_eq_none.mp hfind p.1 (List.of_mem_zip hp).1
    exact this (decide_eq_true hname)
  | some g =>
    have hg : g ∈ gs := List.mem_of_find?_eq_some hfind
    have hfound := List.find?_some hfind
    have hname : s.getDatabase c g.1 = some (.file n) := of_decide_eq_true hfound
    rw [← hgroups] at hg
    obtain ⟨p, hp, rfl⟩ := List.mem_map.mp hg
    obtain ⟨od, od', hod, hcommit, hod'⟩ := hsame p hp ((happlied.getDatabase _).trans hname)
    obtain ⟨name', od₀, od₁, hod₁, hv⟩ := happlied.valid p hp
    obtain rfl := Option.some.inj (hv.getDatabase.symm.trans hname)
    obtain rfl := Option.some.inj (hod.symm.trans hod₁)
    obtain ⟨db, rfl, hdb, hlogical⟩ := h₁.opened od hod
    obtain ⟨db', deleted, hdb', hmem, hresult⟩ :=
      hord.mirror hv (hproper p.1 (List.of_mem_zip hp).1) hcommit hdb hlogical
    have hstored := isSome_storage_commitDatabase hcommit (h₁.stored od hod)
    simp only [Option.map_some, Option.bind_some, hdb']
    refine ⟨fun od₂ hod₂ => ?_, fun od₂ hod₂ => ?_, fun _ _ hnone => ?_⟩
    · obtain rfl := Option.some.inj (hod'.symm.trans hod₂)
      exact hstored
    · obtain rfl := Option.some.inj (hod'.symm.trans hod₂)
      exact ⟨db', rfl, hmem, hresult⟩
    · rw [hod'] at hnone
      cases hnone

theorem Mirrors.handleTransactionCommit {n : ℕ} {m' : TransactionCommit} {σ : DatabaseName → Schedule}
    (h : Mirrors s (.file n) m) (hwf : UsersWF s) (hord : Ordered s)
    (hproper : s.CommitsOrderly DbTree.Proper (.transactionCommit c m' σ))
    (hhandle : s.handleTransactionCommit c m' σ = some s') :
    Mirrors s' (.file n) (s.mirror (.file n) (.transactionCommit c m' σ) m) := by
  have hmirror : s.mirror (.file n) (.transactionCommit c m' σ) m =
      match s.committed (.file n) (.transactionCommit c m' σ) with
      | none => m
      | some (us, σ) => m.bind fun db => (db.commit us σ).map Prod.fst := rfl
  rw [hmirror, committed]
  unfold Server.handleTransactionCommit at hhandle
  split_ifs at hhandle with hactive hfollow
  · obtain rfl := Option.some.inj hhandle
    rw [accepted, if_pos (by rw [hactive]; rfl)]
    exact h.congr rfl rfl
  · obtain rfl := Option.some.inj hhandle
    rw [accepted, if_pos (by rw [hfollow, Bool.or_true])]
    exact h.congr rfl rfl
  · rw [Bool.not_eq_true'] at hactive
    rw [accepted, if_neg (by rw [Bool.not_eq_false] at hactive; simp [hactive, hfollow])]
    have hactive := Bool.of_not_eq_false hactive
    set s₀ := s.setClient c
      { s.clients c with commitMessages := (s.clients c).commitMessages ++ [m'] } with hs₀
    have hmove : Move .noCommits s s₀ := .client rfl rfl
    have hactive₀ : s₀.active c = true := by
      rw [hs₀, active, clients_setClient_self]
      exact hactive
    have hnames : ∀ id, s₀.getDatabase c id = s.getDatabase c id := fun id => by
      rw [hs₀, getDatabase, getDatabase, clients_setClient_self]
    have hord₀ : Ordered s₀ := hmove.ordered hord
    have h₀ : Mirrors s₀ (.file n) m := h.congr rfl rfl
    have hproper₀ : s₀.PermitsCommits DbTree.Proper c ((s.clients c).commitMessages ++ [m']) :=
      hproper hactive (Bool.eq_false_iff.mpr hfollow)
    have hwf₀ : UsersWF s₀ := hwf.setClient rfl
    -- a rejected commit applies nothing to either, an accepted one the same to both
    rcases finishCommit_cases hhandle hwf₀ hord₀.healthy with ⟨hnot, s₁, h₁, hwf₁, habort⟩ |
      ⟨gs, ls, s₁, s₂, commits, hgs, hvalid, happlied, habort⟩
    · have hs₁ : Healthy s₁ := h₁.moves.healthy hord₀.healthy
      have hmoves : Moves .noOpens s₀ s' := (h₁.moves.mono (Permit.noBegins_le trivial)).trans
        (moves_abortTransaction habort hwf₁ hs₁ trivial)
      rw [valid_eq_none hnot]
      exact hmoves.mirrors hord₀.healthy h₀
    · rw [valid_of_success hgs hvalid]
      have happly := h₀.commitsApplied hord₀ happlied (map_fst_of_success hvalid)
        (hproper₀ gs hgs ls s₁ hvalid)
      have hsent : Mirrors (s₂.send c (.transactionCommit .success commits)) (.file n) _ :=
        happly.congr rfl rfl
      have hwf₂ : UsersWF (s₂.send c (.transactionCommit .success commits)) :=
        happlied.usersWF_applied.send _
      have hs₂ : Healthy (s₂.send c (.transactionCommit .success commits)) :=
        Moves.healthy (P := .noOpens) (.single (.send c _)) (happlied.healthy hactive₀ hord₀.healthy)
      have hended := (moves_abortTransaction (P := .noOpens) habort hwf₂ hs₂ trivial).mirrors hs₂ hsent
      simp only [hnames] at hended
      exact hended

/-- Every step does to the database in memory what it does to the one in the file. -/
theorem Mirrors.step {n : ℕ} {e : Event} (h : Mirrors s (.file n) m) (hwf : UsersWF s)
    (hord : Ordered s) (hproper : s.CommitsOrderly DbTree.Proper e) (hstep : Step s e s') :
    Mirrors s' (.file n) (s.mirror (.file n) e m) := by
  have hother : ¬e.Opens → s.CommitsOrderly (fun _ _ => False) e →
      Mirrors s' (.file n) m := fun hopens hnone =>
    (hstep.moves (P := .noOpens) hwf hord.healthy (fun _ => trivial) hopens (fun _ => trivial) hnone).mirrors hord.healthy h
  have hcalm : s.creates (.file n) e = false → s.committed (.file n) e = none →
      s.mirror (.file n) e m = m := fun hcreates hcommitted => by
    rw [Server.mirror, hcreates, hcommitted]
    rfl
  cases e with
  | databaseOpen c name mode mvcc =>
    obtain ⟨r, s₁, hopen, hmoves⟩ := handleDatabaseOpen_moves (P := .noOpens) hstep.2 hwf trivial
    have h₁ := h.openDatabase hwf hord.healthy hopen c mvcc
    have hs₁ : Healthy s₁ :=
      (moves_openDatabase (P := .noCommits) hopen hwf trivial).healthy hord.healthy
    exact hmoves.mirrors hs₁ h₁
  | transactionCommit c m' σ => exact h.handleTransactionCommit hwf hord hproper hstep.2
  | _ =>
    rw [hcalm rfl rfl]
    exact hother id trivial

/-- What a commit that is accepted copies has been loaded. -/
def CopiesLoaded (s : Server) : Event → Prop
  | .transactionCommit c m _ => ∀ r ∈ s.accepted c m, ∀ g ∈ r.1, ∀ name ∈ s.getDatabase c g.1,
    ∀ od ∈ r.2.databases name, od.database.CopiesLoaded (g.2.flatMap TransactionCommit.blobs)
  | _ => True

theorem Ordered.copiesLoaded {e : Event} (h : Ordered s) (hwf : UsersWF s)
    (hproper : s.CommitsOrderly DbTree.Proper e) : s.CopiesLoaded e := by
  cases e with
  | transactionCommit c m' σ =>
    intro r hr g hg name hname od hod
    rw [Option.mem_def] at hr
    unfold accepted at hr
    dsimp only at hr
    split_ifs at hr with hcommit
    set s₀ := s.setClient c
      { s.clients c with commitMessages := (s.clients c).commitMessages ++ [m'] } with hs₀
    have hnames : ∀ id, s₀.getDatabase c id = s.getDatabase c id := fun id => by
      rw [hs₀, getDatabase, getDatabase, clients_setClient_self]
    have hmove : Move .noCommits s s₀ := .client rfl rfl
    have hwf₀ : UsersWF s₀ := hwf.setClient rfl
    unfold valid at hr
    split at hr
    · cases hr
    · next gs hgs =>
      split at hr
      · next ls s₁ hvalid =>
        obtain rfl := Option.some.inj hr
        have hnodup : (gs.map Prod.fst).Nodup := (groups_groupByDatabase groups_nil hgs).nodup
        rw [← map_fst_of_success hvalid] at hg
        obtain ⟨p, hp, rfl⟩ := List.mem_map.mp hg
        obtain ⟨name', od₀, od', hod', hv⟩ := validates_of_success hvalid hwf₀ hnodup p hp
        obtain rfl := Option.some.inj (hv.getDatabase.symm.trans ((hnames _).trans hname))
        obtain rfl := Option.some.inj (hod'.symm.trans hod)
        simp only [Bool.or_eq_true, not_or, Bool.not_eq_true, Bool.not_eq_false'] at hcommit
        have hpermit : s₀.PermitsCommit DbTree.Proper c p.1 :=
          hproper hcommit.1 hcommit.2 gs hgs ls s₁ hvalid p.1 (List.of_mem_zip hp).1
        obtain ⟨t, created, -, hpasses, -, -, -⟩ := (hmove.ordered h).passes hv hpermit
        exact hpasses.copiesLoaded
      · cases hr
  | _ => trivial

/-! ### Runs -/

/-- As long as all commits are proper, a database in a file, which may be closed and opened again,
has the content of one in memory that gets the same commits and is never closed, and what the next
proper commit copies will have been loaded. -/
theorem mirrors_of_proper {n : ℕ} {files : DatabaseName → Option FileContent} {delay : ℕ}
    {m₀ : Option Database} {es : List Event} (hfiles : ∀ name f, files name = some f →
      ∃ db : Database, db.Reachable Database.Keeps ∧ db.file = f)
    (hmirror : Mirrors (start files delay) (.file n) m₀)
    (hrun : GuardedRun (stepWith (.file n)) (fun p e => p.1.CommitsOrderly DbTree.Proper e)
      (start files delay, m₀) es (s, m)) :
    Mirrors s (.file n) m ∧ ∀ e, s.CommitsOrderly DbTree.Proper e → s.CopiesLoaded e := by
  obtain ⟨hwf, hord, hmirrors⟩ : UsersWF s ∧ Ordered s ∧ Mirrors s (.file n) m := by
    refine hrun.invariant
      (I := fun _ p => UsersWF p.1 ∧ Ordered p.1 ∧ Mirrors p.1 (.file n) p.2)
      ⟨usersWF_start files delay, ordered_start hfiles, hmirror⟩
      fun _ p e p' ⟨hwf, hord, hmirrors⟩ hproper hstep => ?_
    obtain ⟨s', hs', rfl⟩ := Option.map_eq_some_iff.mp hstep
    have hstep := step_eq_some_iff.mp hs'
    exact ⟨hstep.usersWF hwf, hstep.ordered hwf hord hproper,
      hmirrors.step hwf hord hproper hstep⟩
  exact ⟨hmirrors, fun e => hord.copiesLoaded hwf⟩

/-- A client opens the first file, and may write the next free cluster id of its first segment. -/
def enters (c : ClientId) : List Event :=
  [.connectionOpened c, .databaseOpen c (.file 0) .createIfNotExist false, .transactionBegin c 0 [],
    .blobsRead ⟨c, 0, .write, 0, [⟨⟨0, nextFreeClusterId, nextFreeBlobId⟩, 0⟩]⟩]

/-- A commit of a client with one database, which walks its sets in some order. -/
def commits (c : ClientId) (us : List BlobData) (s : Server) : Event :=
  .transactionCommit c ⟨false, 0, us⟩ fun name =>
    match s.databases name with
    | none => ⟨[], [], .insertion, []⟩
    | some od => od.database.orderOf us

/-- A client creates a cluster, and another one finds it after the file was closed. -/
theorem mirrors_of_proper_reopened : ∃ es s m,
    GuardedRun (stepWith (.file 0)) (fun p e => p.1.CommitsOrderly DbTree.Proper e)
      (start (fun _ => none) 0, none) es (s, m) ∧
    (∃ t, s.tree (.file 0) = some t ∧ (t.getCluster 0 1).isSome) ∧
    Mirrors s (.file 0) m ∧ ∀ e, s.CommitsOrderly DbTree.Proper e → s.CopiesLoaded e := by
  have hplay : ((GuardedRun.play (stepWith (.file 0)) (fun _ e => e.IsCommit = false) (enters 1)
      (start (fun _ => none) 0, none)).bind fun p =>
        (stepWith (.file 0) p (p.1.commits 1 createCluster)).bind fun p' =>
          (GuardedRun.play (stepWith (.file 0)) (fun _ e => e.IsCommit = false)
            (.connectionClosed 1 :: enters 2) p').bind fun p'' =>
              (p.1.tree (.file 0)).bind fun t => (p''.1.tree (.file 0)).map fun t' =>
                decide (t.nextClusterId 0 = 1 ∧ (t'.getCluster 0 1).isSome ∧
                  (p.1.clients 1).commitMessages = [] ∧
                  p.1.getDatabase 1 0 = some (.file 0))) = some true := by
    decide +kernel
  obtain ⟨p, hp, hplay⟩ := Option.bind_eq_some_iff.mp hplay
  obtain ⟨p', hp', hplay⟩ := Option.bind_eq_some_iff.mp hplay
  obtain ⟨⟨s, m⟩, hs, hplay⟩ := Option.bind_eq_some_iff.mp hplay
  obtain ⟨t, ht, hplay⟩ := Option.bind_eq_some_iff.mp hplay
  obtain ⟨t', ht', hplay⟩ := Option.map_eq_some_iff.mp hplay
  obtain ⟨hnext, hcluster, hmessages, hname⟩ := of_decide_eq_true hplay
  have hproper : p.1.CommitsOrderly DbTree.Proper (p.1.commits 1 createCluster) :=
    commitsOrderly_createCluster hmessages hname ht hnext
  have hrun := ((GuardedRun.of_play hp).mono fun p e h =>
    commitsOrderly_of_not_isCommit (s := p.1) h DbTree.Proper).snoc hproper hp'
  have hrun := hrun.trans ((GuardedRun.of_play hs).mono fun p e h =>
    commitsOrderly_of_not_isCommit (s := p.1) h DbTree.Proper)
  refine ⟨_, s, m, hrun, ⟨t', ht', hcluster⟩, mirrors_of_proper (by rintro _ _ ⟨⟩) ?_ hrun⟩
  exact ⟨by rintro _ ⟨⟩, by rintro _ ⟨⟩, by rintro _ _ _ ⟨⟩⟩

/-- Creates the clusters 1 and 2 of the first segment, writes into the second one, and makes the
next free cluster id what it was. -/
def lowersAgain : List BlobData :=
  [⟨⟨0, nextFreeClusterId, nextFreeBlobId⟩, some [3, 0, 0, 0]⟩,
    ⟨⟨0, 2, nextFreeBlobId⟩, some [2, 0, 0, 0]⟩, ⟨⟨0, 2, 1⟩, some [7]⟩,
    ⟨⟨0, nextFreeClusterId, nextFreeBlobId⟩, some [1, 0, 0, 0]⟩]

/-- Creates the clusters 1 and 2 of the first segment, and writes into the second one. -/
def createsAgain : List BlobData :=
  [⟨⟨0, nextFreeClusterId, nextFreeBlobId⟩, some [3, 0, 0, 0]⟩, ⟨⟨0, 2, 0⟩, some [8]⟩]

/-- A commit lowers the next free cluster id again. After the file was closed and opened, the next
commit creates the cluster above it once more, and its blob is lost. -/
theorem not_mirrors_of_lowered : ∃ es s m,
    GuardedRun (stepWith (.file 0)) (fun _ _ => True) (start (fun _ => none) 0, none) es (s, m) ∧
      ¬Mirrors s (.file 0) m := by
  have hplay : ((GuardedRun.play (stepWith (.file 0)) (fun _ _ => True) (enters 1)
      (start (fun _ => none) 0, none)).bind fun p =>
        (GuardedRun.play (stepWith (.file 0)) (fun _ _ => True)
          (p.1.commits 1 lowersAgain :: .connectionClosed 1 :: enters 2) p).bind fun p =>
            (stepWith (.file 0) p (p.1.commits 2 createsAgain)).bind fun p =>
              (p.1.databases (.file 0)).bind fun od => p.2.bind fun db =>
                od.database.logical.bind fun t => db.logical.map fun t' =>
                  decide (t.hasBlob ⟨0, 2, 1⟩ = false ∧ t'.hasBlob ⟨0, 2, 1⟩ = true)) =
      some true := by
    decide +kernel
  obtain ⟨p, hp, hplay⟩ := Option.bind_eq_some_iff.mp hplay
  obtain ⟨p', hp', hplay⟩ := Option.bind_eq_some_iff.mp hplay
  obtain ⟨⟨s, m⟩, hs, hplay⟩ := Option.bind_eq_some_iff.mp hplay
  obtain ⟨od, hod, hplay⟩ := Option.bind_eq_some_iff.mp hplay
  obtain ⟨db, hdb, hplay⟩ := Option.bind_eq_some_iff.mp hplay
  obtain ⟨t, ht, hplay⟩ := Option.bind_eq_some_iff.mp hplay
  obtain ⟨t', ht', hplay⟩ := Option.map_eq_some_iff.mp hplay
  obtain ⟨hlost, hkept⟩ := of_decide_eq_true hplay
  have hrun := ((GuardedRun.of_play hp).trans (GuardedRun.of_play hp')).snoc trivial hs
  refine ⟨_, s, m, hrun, fun hmirrors => ?_⟩
  obtain ⟨db', hdb', -, hlogical⟩ := hmirrors.opened od hod
  obtain rfl := Option.some.inj (hdb.symm.trans hdb')
  rw [ht', ht] at hlogical
  rw [Option.some.inj hlogical, hlost] at hkept
  cases hkept

/-- As long as all commits are proper, every byte of a file has exactly one use. -/
theorem spaceExact_of_proper {files : DatabaseName → Option FileContent} {delay : ℕ}
    {es : List Event} (hfiles : ∀ name f, files name = some f →
      ∃ db : Database, db.Reachable Database.Keeps ∧ db.file = f)
    (hrun : GuardedRun step (CommitsOrderly DbTree.Proper) (start files delay) es s) :
    ∀ name od, s.databases name = some od → od.database.SpaceExact := by
  obtain ⟨-, hord⟩ := ordered_of_run hfiles hrun
  intro name od hod
  exact ((hord.sound.databases name od hod).mono fun _ _ h => h.1).spaceExact

/-- A client creates a cluster in a file. -/
theorem spaceExact_of_proper_create : ∃ es s,
    GuardedRun step (CommitsOrderly DbTree.Proper) (start (fun _ => none) 0) es s ∧
      (∃ t, s.tree (.file 0) = some t ∧ (t.getCluster 0 1).isSome) ∧
      ∀ name od, s.databases name = some od → od.database.SpaceExact := by
  have hplay : ((GuardedRun.play step (fun _ e => e.IsCommit = false) (enters 1)
      (start (fun _ => none) 0)).bind fun s => (s.step (s.commits 1 createCluster)).bind fun s' =>
        (s.tree (.file 0)).bind fun t => (s'.tree (.file 0)).map fun t' =>
          decide (t.nextClusterId 0 = 1 ∧ (t'.getCluster 0 1).isSome ∧
            (s.clients 1).commitMessages = [] ∧ s.getDatabase 1 0 = some (.file 0))) =
      some true := by
    decide +kernel
  obtain ⟨s, hs, hplay⟩ := Option.bind_eq_some_iff.mp hplay
  obtain ⟨s', hs', hplay⟩ := Option.bind_eq_some_iff.mp hplay
  obtain ⟨t, ht, hplay⟩ := Option.bind_eq_some_iff.mp hplay
  obtain ⟨t', ht', hplay⟩ := Option.map_eq_some_iff.mp hplay
  obtain ⟨hnext, hcluster, hmessages, hname⟩ := of_decide_eq_true hplay
  have hproper : s.CommitsOrderly DbTree.Proper (s.commits 1 createCluster) :=
    commitsOrderly_createCluster hmessages hname ht hnext
  have hrun := ((GuardedRun.of_play hs).mono fun s e h =>
    commitsOrderly_of_not_isCommit (s := s) h DbTree.Proper).snoc hproper hs'
  exact ⟨_, s', hrun, ⟨t', ht', hcluster⟩, spaceExact_of_proper (by rintro _ _ ⟨⟩) hrun⟩

/-- The blocks of the objects that are lost are not in use, but they are not free either. -/
theorem not_spaceExact_of_lowered : ∃ es s od,
    GuardedRun step (fun _ _ => True) (start (fun _ => none) 0) es s ∧
      s.databases (.file 0) = some od ∧ ¬od.database.SpaceExact := by
  have hplay : ((GuardedRun.play step (fun _ _ => True) (enters 1)
      (start (fun _ => none) 0)).bind fun s =>
        (GuardedRun.play step (fun _ _ => True)
          (s.commits 1 lowersAgain :: .connectionClosed 1 :: enters 2) s).bind fun s =>
            (s.step (s.commits 2 createsAgain)).bind fun s =>
              (s.databases (.file 0)).bind fun od => od.database.storage.bind fun st =>
                (od.database.tree od.database.snapshot).map fun v =>
                  decide (240 < st.freeList.endOffset ∧
                    coverage (usedExtents v st.freeList ++ st.freeList.entries) 240 = 0)) =
      some true := by
    decide +kernel
  obtain ⟨s, hs, hplay⟩ := Option.bind_eq_some_iff.mp hplay
  obtain ⟨s', hs', hplay⟩ := Option.bind_eq_some_iff.mp hplay
  obtain ⟨s'', hs'', hplay⟩ := Option.bind_eq_some_iff.mp hplay
  obtain ⟨od, hod, hplay⟩ := Option.bind_eq_some_iff.mp hplay
  obtain ⟨st, hst, hplay⟩ := Option.bind_eq_some_iff.mp hplay
  obtain ⟨v, hv, hplay⟩ := Option.map_eq_some_iff.mp hplay
  obtain ⟨hlt, hzero⟩ := of_decide_eq_true hplay
  have hrun := ((GuardedRun.of_play hs).trans (GuardedRun.of_play hs')).snoc trivial hs''
  refine ⟨_, s'', od, hrun, hod, fun hexact => ?_⟩
  obtain ⟨v', hv', hpart⟩ := hexact st hst
  obtain rfl := Option.some.inj (hv.symm.trans hv')
  have hone := partitions_iff.mp hpart 240
  rw [hzero, if_pos hlt] at hone
  cases hone

end Server

end BlobsDb
