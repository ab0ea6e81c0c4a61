import BlobsDb.Server.NextFreeIds

/-!
# Trees that persist

A database in a file may be closed, and opened again later. What holds of its tree and does not
depend on whether the tree comes from the file (`Persists`) still holds then. Only commits change
the tree, and creating the database anew.
-/

namespace BlobsDb

theorem Database.isSome_storage_of_open {db : Database} {f : FileContent}
    (h : readInitialFileDatabaseData f = some db) :
    db.storage.isSome = true := by
  unfold readInitialFileDatabaseData at h
  dsimp only at h
  repeat' split at h
  all_goals cases h
  rfl

namespace Server

variable {s s' : Server} {c : ClientId} {name : DatabaseName} {od od' : OpenDatabase}
  {reopens : Prop} {R : Tree 3 → Prop}

/-- The event opens the database, which was not open or is to be created anew. -/
def opens (s : Server) (name : DatabaseName) : Event → Bool
  | .databaseOpen _ name' mode _ => decide (name' = name) &&
    match s.databases name with
    | none => true
    | some od => mode = .createAlways && od.useCount = 0
  | _ => false

/-- The event creates the database anew. -/
def creates (s : Server) (name : DatabaseName) : Event → Bool
  | .databaseOpen _ name' mode _ => decide (name' = name) &&
    match s.databases name with
    | none => mode = .createAlways || (mode ≠ .openFailIfNotExist && (s.files name).isNone)
    | some od => mode = .createAlways && od.useCount = 0
  | _ => false

theorem opens_of_creates {e : Event} (h : s.creates name e = true) : s.opens name e = true := by
  cases e with
  | databaseOpen c name' mode mvcc =>
    rw [creates, Bool.and_eq_true] at h
    rw [opens, h.1, Bool.true_and]
    cases hod : s.databases name with
    | none => rfl
    | some od =>
      rw [hod] at h
      exact h.2
  | _ => cases h

/-- The tree of a database has a property. If the database is in a file, and may be opened again
after it was closed, the tree in the file has it as well. -/
structure Persists (reopens : Prop) (R : Tree 3 → Prop) (s : Server) (name : DatabaseName) :
    Prop where
  stored : ∀ n, name = .file n → ∀ od, s.databases name = some od →
    od.database.storage.isSome = true
  opened : ∀ od, s.databases name = some od → ∃ t, od.database.Inv t ∧ R t
  closed : reopens → ∀ f db, s.databases name = none → s.files name = some f →
    Database.readInitialFileDatabaseData f = some db → ∃ t, db.Inv t ∧ R t

theorem files_closeDatabase_self (hod : s.databases name = some od)
    (hstored : od.database.storage.isSome = true) :
    (s.closeDatabase name).files name = some od.database.file := by
  obtain ⟨storage, hstorage⟩ := Option.isSome_iff_exists.mp hstored
  rw [closeDatabase, hod]
  simp only [hstorage, Function.update_self, Database.file]

theorem files_closeDatabase_of_ne {name' : DatabaseName} (hne : name ≠ name') :
    (s.closeDatabase name').files name = s.files name := by
  unfold closeDatabase
  split
  · rfl
  · next od _ =>
    cases hstorage : od.database.storage with
    | none => rfl
    | some storage =>
      exact Function.update_of_ne hne _ _

namespace Persists

theorem congr (h : Persists reopens R s name) (hd : s'.databases name = s.databases name)
    (hf : s'.files name = s.files name) : Persists reopens R s' name where
  stored n hn od hod := h.stored n hn od (hd ▸ hod)
  opened od hod := h.opened od (hd ▸ hod)
  closed hreopens f db hnone hfile := h.closed hreopens f db (hd ▸ hnone) (hf ▸ hfile)

theorem mono {R' : Tree 3 → Prop} (h : Persists reopens R s name) (hR : ∀ t, R t → R' t) :
    Persists reopens R' s name where
  stored := h.stored
  opened od hod := (h.opened od hod).imp fun t ht => ⟨ht.1, hR t ht.2⟩
  closed hreopens f db hnone hfile hopen :=
    (h.closed hreopens f db hnone hfile hopen).imp fun t ht => ⟨ht.1, hR t ht.2⟩

/-- The database is open. -/
theorem setDatabase {t : Tree 3}
    (hstored : ∀ n, name = .file n → od.database.storage.isSome = true)
    (hinv : od.database.Inv t) (ht : R t) : Persists reopens R (s.setDatabase name od) name where
  stored n hn od' hod' := by
    rw [databases_setDatabase_self] at hod'
    obtain rfl := Option.some.inj hod'
    exact hstored n hn
  opened od' hod' := by
    rw [databases_setDatabase_self] at hod'
    obtain rfl := Option.some.inj hod'
    exact ⟨t, hinv, ht⟩
  closed _ _ _ hnone := by
    rw [databases_setDatabase_self] at hnone
    cases hnone

theorem change (h : Persists reopens R s name) (hs : Healthy s) (hod : s.databases name = some od)
    (hchange : od.Change .noOpens s name od') :
    Persists reopens R (s.setDatabase name od') name := by
  obtain ⟨t, hinv, ht⟩ := h.opened od hod
  have hstored : ∀ n, name = .file n → od.database.storage.isSome = true :=
    fun n hn => h.stored n hn od hod
  cases hchange with
  | looked hp hl =>
    have hloads := hl.loads hinv.wf ((hs.databases _ _ hod).path_of_snapshotFor hp)
    refine .setDatabase (fun n hn => ?_) (hloads.inv hinv) ht
    rw [hloads.storage]
    exact hstored n hn
  | beganMVCC => exact .setDatabase hstored hinv.beginMVCC ht
  | endedMVCC => exact .setDatabase hstored hinv.endMVCC ht
  | committed _ _ hpermit => exact False.elim hpermit
  | _ => exact .setDatabase hstored hinv ht

section

variable (hfile : reopens → ∃ n, name = .file n) (hR : reopens → ∀ t, R t → R (Tree.onFile t))

include hfile hR

theorem closeDatabase (h : Persists reopens R s name) :
    Persists reopens R (s.closeDatabase name) name := by
  cases hod : s.databases name with
  | none =>
    have hsame : s.closeDatabase name = s := by rw [Server.closeDatabase, hod]
    rw [hsame]
    exact h
  | some od =>
    have hnone : (s.closeDatabase name).databases name = none := by
      rw [closeDatabase_databases, Function.update_self]
    refine ⟨fun n _ od' hod' => ?_, fun od' hod' => ?_, fun hreopens f db _ hf hread => ?_⟩
    · rw [hnone] at hod'
      cases hod'
    · rw [hnone] at hod'
      cases hod'
    · obtain ⟨n, hn⟩ := hfile hreopens
      obtain ⟨t, hinv, ht⟩ := h.opened od hod
      rw [files_closeDatabase_self hod (h.stored n hn od hod)] at hf
      rw [← Option.some.inj hf] at hread
      exact ⟨_, (hinv.exists_reopen hread).1, hR hreopens t ht⟩

theorem move (h : Persists reopens R s name) (hmove : Move .noOpens s s') (hs : Healthy s) :
    Persists reopens R s' name := by
  cases hmove with
  | opened _ _ hopens => exact False.elim hopens
  | @closed name' =>
    by_cases hne : name = name'
    · subst hne
      exact h.closeDatabase hfile hR
    · refine h.congr ?_ (files_closeDatabase_of_ne hne)
      rw [closeDatabase_databases, Function.update_of_ne hne]
  | @database name' od od' hod hchange =>
    by_cases hne : name = name'
    · subst hne
      exact h.change hs hod hchange
    · exact h.congr (databases_setDatabase_of_ne hne) rfl
  | _ => exact h.congr rfl rfl

theorem moves (h : Persists reopens R s name) (hmoves : Moves .noOpens s s') (hs : Healthy s) :
    Persists reopens R s' name := by
  induction hmoves with
  | refl => exact h
  | tail hmoves hmove ih => exact ih.move hfile hR hmove (Moves.healthy hmoves hs)

end

end Persists

/-! ### Opening -/

/-- A file is created anew, or it is read. -/
theorem load_file {n : ℕ} {mode : OpenMode} {r : DatabaseOpenResponse.Result}
    {o : Option Database} (h : s.load (.file n) mode = some (r, o)) :
    let new := mode = .createAlways ∨ mode ≠ .openFailIfNotExist ∧ s.files (.file n) = none
    (o = none ∧ ¬new) ∨
      (∃ db, o = some db ∧ new ∧
        Database.readInitialFileDatabaseData Database.initializeDatabaseFile = some db) ∨
      ∃ db f, o = some db ∧ ¬new ∧ s.files (.file n) = some f ∧
        Database.readInitialFileDatabaseData f = some db := by
  unfold Server.load at h
  cases hf : s.files (.file n) with
  | none =>
    rw [hf] at h
    cases mode with
    | openFailIfNotExist =>
      cases h
      exact Or.inl ⟨rfl, by simp⟩
    | _ =>
      obtain ⟨db, hdb, heq⟩ := Option.map_eq_some_iff.mp h
      cases heq
      exact Or.inr (Or.inl ⟨db, rfl, by simp, hdb⟩)
  | some f =>
    rw [hf] at h
    cases mode with
    | createFailIfExist =>
      cases h
      exact Or.inl ⟨rfl, by simp⟩
    | createAlways =>
      obtain ⟨db, hdb, heq⟩ := Option.map_eq_some_iff.mp h
      cases heq
      exact Or.inr (Or.inl ⟨db, rfl, by simp, hdb⟩)
    | _ =>
      dsimp only at h
      split at h
      · cases h
        exact Or.inl ⟨rfl, by simp⟩
      · next db hdb =>
        cases h
        exact Or.inr (Or.inr ⟨db, f, rfl, by simp, rfl, hdb⟩)

/-- A database is used once more, or it is loaded. -/
theorem openDatabase_of_not_opens {mode : OpenMode} {r : DatabaseOpenResponse.Result} {mvcc : Bool}
    (h : s.openDatabase name mode = some (r, s'))
    (hopens : s.opens name (.databaseOpen c name mode mvcc) = false) :
    s' = s ∨ ∃ od, s.databases name = some od ∧
      s' = s.setDatabase name { od with useCount := od.useCount + 1 } := by
  have hnot : ∀ {s₁ : Server}, ¬Unloads name mode s s₁ := by
    rintro _ (⟨hnone, -⟩ | ⟨rfl, ⟨od, hod, hzero⟩, -⟩)
    · simp [opens, hnone] at hopens
    · simp [opens, hod, hzero] at hopens
  cases opening_of_openDatabase h with
  | refused => exact Or.inl rfl
  | used hod => exact Or.inr ⟨_, hod, rfl⟩
  | failed hs₁ => exact absurd hs₁ hnot
  | loaded hs₁ => exact absurd hs₁ hnot

/-- A database in a file is opened as the file has it, unless it is created anew. -/
theorem openDatabase_of_not_creates {n : ℕ} {mode : OpenMode} {r : DatabaseOpenResponse.Result}
    {mvcc : Bool} (h : s.openDatabase (.file n) mode = some (r, s'))
    (hopens : s.opens (.file n) (.databaseOpen c (.file n) mode mvcc) = true)
    (hcreates : s.creates (.file n) (.databaseOpen c (.file n) mode mvcc) = false) :
    s' = s ∨ ∃ f db, s.databases (.file n) = none ∧ s.files (.file n) = some f ∧
      Database.readInitialFileDatabaseData f = some db ∧
      s' = s.setDatabase (.file n) ⟨db, .empty, [], 1⟩ := by
  have hnone : s.databases (.file n) = none := by
    cases hod : s.databases (.file n) with
    | none => rfl
    | some od => simp_all [opens, creates]
  have hnew : ¬(mode = .createAlways ∨ mode ≠ .openFailIfNotExist ∧ s.files (.file n) = none) := by
    simpa [creates, hnone, ← Option.isSome_iff_ne_none] using hcreates
  have hunloads : ∀ {s₁ : Server}, Unloads (.file n) mode s s₁ → s₁ = s := by
    rintro s₁ (⟨-, hs₁⟩ | ⟨-, ⟨od, hod, -⟩, -⟩)
    · exact hs₁
    · rw [hnone] at hod
      cases hod
  cases opening_of_openDatabase h with
  | refused => exact Or.inl rfl
  | used hod =>
    rw [hnone] at hod
    cases hod
  | failed hs₁ => exact Or.inl (hunloads hs₁)
  | loaded hs₁ hload =>
    obtain rfl := hunloads hs₁
    rcases load_file hload with ⟨hdb, -⟩ | ⟨_, -, hcreated, -⟩ | ⟨db, f, hdb, -, hf, hread⟩
    · cases hdb
    · exact absurd hcreated hnew
    · cases hdb
      exact Or.inr ⟨f, _, hnone, hf, hread, rfl⟩

/-- A database in a file is created anew. -/
theorem openDatabase_of_creates {n : ℕ} {mode : OpenMode} {r : DatabaseOpenResponse.Result}
    {mvcc : Bool} (h : s.openDatabase name mode = some (r, s'))
    (hcreates : s.creates (.file n) (.databaseOpen c name mode mvcc) = true) :
    ∃ (s₁ : Server) (db : Database),
      Database.readInitialFileDatabaseData Database.initializeDatabaseFile = some db ∧
        s' = s₁.setDatabase (.file n) ⟨db, .empty, [], 1⟩ := by
  rw [creates, Bool.and_eq_true, decide_eq_true_eq] at hcreates
  obtain ⟨rfl, hcreates⟩ := hcreates
  have hnew : ∀ {s₁ : Server}, Unloads (.file n) mode s s₁ →
      mode = .createAlways ∨ mode ≠ .openFailIfNotExist ∧ s₁.files (.file n) = none := by
    rintro s₁ (⟨hnone, rfl⟩ | ⟨hmode, -, -⟩)
    · simpa [hnone] using hcreates
    · exact Or.inl hmode
  have hopen : ∀ {od : OpenDatabase}, s.databases (.file n) = some od →
      mode = .createAlways ∧ od.useCount = 0 := fun hod => by simpa [hod] using hcreates
  cases opening_of_openDatabase h with
  | refused hod _ huse => exact absurd (huse (hopen hod).1) (hopen hod).2.not_gt
  | used hod hmode => exact absurd (hopen hod).1 hmode
  | failed hs₁ hload =>
    rcases load_file hload with ⟨-, hold⟩ | ⟨db, hdb, -⟩ | ⟨db, f, hdb, -⟩
    · exact absurd (hnew hs₁) hold
    · cases hdb
    · cases hdb
  | loaded hs₁ hload =>
    rcases load_file hload with ⟨hdb, -⟩ | ⟨db, hdb, -, hread⟩ | ⟨_, _, -, hold, -⟩
    · cases hdb
    · cases hdb
      exact ⟨_, _, hread, rfl⟩
    · exact absurd (hnew hs₁) hold

theorem Persists.openDatabase {name' : DatabaseName} {mode : OpenMode}
    {r : DatabaseOpenResponse.Result} {mvcc : Bool} (hfile : reopens → ∃ n, name = .file n)
    (h : Persists reopens R s name) (hopen : s.openDatabase name' mode = some (r, s'))
    (hold : s.opens name (.databaseOpen c name' mode mvcc) = true →
      reopens ∧ s.creates name (.databaseOpen c name' mode mvcc) = false) :
    Persists reopens R s' name := by
  by_cases hne : name' = name
  · subst hne
    cases hopens : s.opens name' (.databaseOpen c name' mode mvcc) with
    | false =>
      rcases openDatabase_of_not_opens hopen hopens with rfl | ⟨od, hod, rfl⟩
      · exact h
      · obtain ⟨t, hinv, ht⟩ := h.opened od hod
        exact .setDatabase (fun n hn => h.stored n hn od hod) hinv ht
    | true =>
      obtain ⟨hreopens, hcreates⟩ := hold hopens
      obtain ⟨n, rfl⟩ := hfile hreopens
      rcases openDatabase_of_not_creates hopen hopens hcreates with rfl |
        ⟨f, db, hnone, hf, hread, rfl⟩
      · exact h
      · obtain ⟨t, hinv, ht⟩ := h.closed hreopens f db hnone hf hread
        exact .setDatabase (fun _ _ => Database.isSome_storage_of_open hread) hinv ht
  · obtain ⟨s₁, hs₁, hs'⟩ := openDatabase_moves hopen
    have hne := Ne.symm hne
    have h₁ : Persists reopens R s₁ name := by
      rcases hs₁ with rfl | ⟨-, rfl⟩
      · exact h
      · refine h.congr ?_ (files_closeDatabase_of_ne hne)
        rw [closeDatabase_databases, Function.update_of_ne hne]
    rcases hs' with rfl | ⟨db, -, -, rfl⟩ | ⟨od, -, rfl⟩
    · exact h₁
    · exact h₁.congr (databases_setDatabase_of_ne hne) rfl
    · exact h₁.congr (databases_setDatabase_of_ne hne) rfl

/-! ### Committing -/

theorem isSome_storage_commitDatabase {us : List BlobData} {σ : Schedule} {ls : List BlobLocation}
    (hcommit : commitDatabase c us σ ls od = some od') (h : od.database.storage.isSome = true) :
    od'.database.storage.isSome = true := by
  obtain ⟨r, book, -, -, rfl⟩ := commitDatabase_eq_some hcommit
  obtain ⟨storage, hstorage⟩ := Option.isSome_iff_exists.mp h
  simp only [Database.applyToDatabase, hstorage]
  split <;> rfl

end Server

end BlobsDb
