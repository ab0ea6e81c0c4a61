import BlobsDb.Storage.Opening
import Mathlib.Data.List.Sort
import Mathlib.Logic.Relation

/-!
# Runs of a database

A database starts new, in memory or in a file, and goes on by loading objects, by commits, and by
readers who come and go. A database in a file can be closed and opened again, and the machine may
stop while a commit is written.

`Reachable accepts db` says that a run leads to `db` whose commits are all among those `accepts`
allows. All reachable databases have the invariant, so that a stop of the machine leaves the
database as it was before or after the commit (`Reachable.stop`).
-/

namespace BlobsDb

theorem Tree.logical_onFile {n : ℕ} (t : Tree n) : Tree.logical t.onFile = Tree.logical t :=
  LevelTree.mapMark_mapMark _ _ _ _

/-- Sorting by insertion. -/
def OffsetSort.insertion : OffsetSort where
  sort := List.insertionSort fun a b => a.offset ≤ b.offset
  perm := List.perm_insertionSort _
  sorted l :=
    have : Std.Total fun a b : BlockReference => a.offset ≤ b.offset :=
      ⟨fun _ _ => Nat.le_total _ _⟩
    have : IsTrans BlockReference fun a b => a.offset ≤ b.offset := ⟨fun _ _ _ => Nat.le_trans⟩
    List.pairwise_insertionSort _ l

namespace Database

/-- A commit that stays within the range of the numbers for commit ids and file positions. -/
structure Commits (db : Database) (us : List BlobData) (σ : Schedule) (r : CommitResult) :
    Prop where
  commitId : db.commitId + 1 < unknownCommitId
  result : db.calculateCommitResult us σ = some r
  walks : ∀ δ ∈ r.delta, σ.Walks δ
  endOffset : ∀ L ∈ r.freeList, L.endOffset < 2 ^ 64

/-- The disk may hold `g` when the machine stops while the commit is written. -/
def StopsWith (db : Database) (r : CommitResult) (σ : Schedule) (g : FileContent) : Prop :=
  ∃ s ∈ db.storage, ∃ L ∈ r.freeList, s.StopsWith r L σ g

/-- New databases. -/
def New (db : Database) : Prop :=
  db = initializeInMemory ∨ readInitialFileDatabaseData initializeDatabaseFile = some db

/-- The steps of a database whose commits are those that are accepted. -/
inductive Step (accepts : Database → List BlobData → Prop) : Database → Database → Prop
  | load {db : Database} {n : ℕ} {p : Pointer} {h : Heap} (hn : p.path.length + n = 3)
      (hk : db.heap.Known p) (hload : Heap.ensureLoaded db.file n db.heap p = some h) :
      Step accepts db { db with heap := h }
  | beginMVCC (db : Database) : Step accepts db db.beginMVCC
  | endMVCC {db : Database} (huse : 0 < db.mvccUseCount) : Step accepts db db.endMVCC
  | commit {db : Database} {us : List BlobData} {σ : Schedule} {r : CommitResult}
      (ha : accepts db us) (hc : db.Commits us σ r) : Step accepts db (db.applyToDatabase r σ)
  | reopen {db db' : Database} (hopen : readInitialFileDatabaseData db.file = some db') :
      Step accepts db db'
  | stop {db db' : Database} {us : List BlobData} {σ : Schedule} {r : CommitResult}
      {g : FileContent} (ha : accepts db us) (hc : db.Commits us σ r) (hg : db.StopsWith r σ g)
      (hopen : readInitialFileDatabaseData g = some db') : Step accepts db db'

/-- The databases that runs lead to. -/
def Reachable (accepts : Database → List BlobData → Prop) (db : Database) : Prop :=
  ∃ db₀, New db₀ ∧ Relation.ReflTransGen (Step accepts) db₀ db

/-- The content of a database: its tree, with the commit ids, and the free list of its file. -/
def content (db : Database) : Option (DbTree CommitId 3 × Option FreeList) :=
  (db.tree db.snapshot).map fun v => (Tree.logical v, db.storage.map Storage.freeList)

/-- Loads everything there is in the active snapshot. -/
def loadAll (db : Database) : Option Database :=
  (db.heap.loadBelow db.file 3 db.snapshot).map fun h => { db with heap := h }

/-- An order in which a commit may walk its sets. -/
def orderOf (db : Database) (us : List BlobData) : Schedule :=
  match (db.updates us).bind CommitState.delta with
  | none => ⟨[], [], .insertion, []⟩
  | some δ =>
    ⟨δ.allocatedBlocks, δ.releasedBlocks, .insertion, none :: δ.allocatedBlocks.map some⟩

variable {db db' : Database} {v : Tree 3} {us : List BlobData} {σ : Schedule} {r : CommitResult}
  {accepts : Database → List BlobData → Prop}

theorem walks_orderOf (hr : db.calculateCommitResult us (db.orderOf us) = some r) :
    ∀ δ ∈ r.delta, (db.orderOf us).Walks δ := by
  intro δ hδ
  have hdelta : (db.updates us).bind CommitState.delta = some δ := by
    rw [calculateCommitResult] at hr
    split at hr
    · cases hr
    · next st hst =>
      rw [hst, Option.bind_some]
      split at hr
      · next s δ' hs hδ' =>
        obtain rfl := Option.some.inj hr
        exact hδ'.trans hδ
      · obtain rfl := Option.some.inj hr
        exact hδ
  rw [orderOf, hdelta]
  exact ⟨List.Perm.refl _, List.Perm.refl _, List.Perm.refl _⟩

/-! ### Steps keep the invariant -/

namespace Inv

theorem content_eq (h : db.Inv v) :
    db.content = some (Tree.logical v, db.storage.map Storage.freeList) := by
  rw [content, h.view]
  rfl

/-- Loading changes nothing that can be seen. -/
theorem loads (h : db.Inv v) {h' : Heap} (hl : Heap.Loads db.file db.heap h') :
    ({ db with heap := h' } : Database).Inv v := by
  have hcommit : ({ db with heap := h' } : Database).commitId = db.commitId :=
    congrArg Directory.commitId (hl.directory db.snapshot h.known h.loaded)
  exact ⟨hl.wf h.wf, h.path, hl.status (n := 3) h.known h.loaded,
    (hl.view h.wf 3 db.snapshot h.level h.known).trans h.view, hcommit.symm ▸ h.origin,
    hcommit.symm ▸ h.commitIds, h.keys, h.onDisk⟩

theorem beginMVCC (h : db.Inv v) : db.beginMVCC.Inv v := { h with }

theorem endMVCC (h : db.Inv v) : db.endMVCC.Inv v := { h with }

theorem exists_loadAll (h : db.Inv v) : ∃ db', db.loadAll = some db' ∧ db'.Inv v ∧
    db'.heap.LoadedBelow 3 db'.snapshot ∧ db'.storage = db.storage := by
  obtain ⟨h', hload⟩ := Heap.exists_loadBelow h.wf h.level h.view h.loaded
  obtain ⟨hl, hbelow⟩ := Heap.loads_of_loadBelow h.wf h.level h.known h.loaded hload
  refine ⟨{ db with heap := h' }, ?_, h.loads hl, hbelow, rfl⟩
  rw [loadAll, hload]
  rfl

/-- Opening the file of a database again. -/
theorem exists_open {g : FileContent} {header : FileHeader} {L : FreeList}
    (hdisk : OnDisk g header L v) (h : db.Inv v) : ∃ db',
    readInitialFileDatabaseData g = some db' ∧ db'.Inv v.onFile ∧
      db'.storage = some ⟨g, header, L⟩ ∧ db'.mvccSnapshot = none ∧ db'.mvccUseCount = 0 := by
  obtain ⟨db', h1, h2, h3, -, h5, h6⟩ := exists_readInitialFileDatabaseData hdisk h.keys
    (h.mark_commitId.symm ▸ h.commitIds)
  exact ⟨db', h1, h2, h3, h5, h6⟩

/-- A database whose file can be opened has one. -/
theorem exists_reopen (h : db.Inv v) (hopen : readInitialFileDatabaseData db.file = some db') :
    db'.Inv v.onFile ∧ db'.storage = db.storage ∧ db.storage.isSome = true ∧
      db'.mvccSnapshot = none ∧ db'.mvccUseCount = 0 := by
  cases hs : db.storage with
  | none =>
    rw [file, hs] at hopen
    cases hopen
  | some s =>
    have hdisk := h.onDisk s hs
    rw [← file_eq hs] at hdisk
    obtain ⟨db'', h1, h2, h3, h4, h5⟩ := exists_open hdisk h
    obtain rfl : db'' = db' := Option.some.inj (h1.symm.trans hopen)
    rw [file_eq hs] at h3
    exact ⟨h2, h3, rfl, h4, h5⟩

end Inv

theorem New.exists_inv (h : New db) : ∃ v, db.Inv v := by
  rcases h with rfl | h
  · exact ⟨_, inv_initializeInMemory⟩
  · obtain ⟨db', h1, h2, -⟩ := Initial.exists_readInitialFileDatabaseData
    obtain rfl := Option.some.inj (h1.symm.trans h)
    exact ⟨_, h2⟩

/-- When the machine stops, the file has the database before or after the commit. -/
theorem Inv.exists_open_of_stop (h : db.Inv v) {v' : Tree 3} {lost : List MemoryBlock}
    (hc : Committed db v us σ r v' lost) {g : FileContent} (hg : db.StopsWith r σ g) :
    ∃ s L db', db.storage = some s ∧ r.freeList = some L ∧
      readInitialFileDatabaseData g = some db' ∧
      (db'.Inv v.onFile ∧ db'.storage.map Storage.freeList = some s.freeList ∨
        db'.Inv v'.onFile ∧ db'.storage.map Storage.freeList = some L) := by
  obtain ⟨s, hs, L, hL, hg⟩ := hg
  refine ⟨s, L, ?_⟩
  rcases hc.stops s hs L hL g hg with hdisk | hdisk
  · obtain ⟨db', h1, h2, h3, -⟩ := Inv.exists_open hdisk h
    exact ⟨db', hs, hL, h1, Or.inl ⟨h2, by rw [h3]; rfl⟩⟩
  · obtain ⟨db', h1, h2, h3, -⟩ := Inv.exists_open hdisk hc.inv
    exact ⟨db', hs, hL, h1, Or.inr ⟨h2, by rw [h3]; rfl⟩⟩

theorem freeList_applyToDatabase {s : Storage} {L : FreeList} (hs : db.storage = some s)
    (hL : r.freeList = some L) :
    (db.applyToDatabase r σ).storage.map Storage.freeList = some L := by
  simp only [applyToDatabase, hs, hL]
  rfl

/-- One step keeps the invariant. -/
theorem Step.exists_inv (hstep : Step accepts db db') (h : db.Inv v) : ∃ v', db'.Inv v' := by
  cases hstep with
  | load hn hk hload => exact ⟨v, h.loads (Heap.loads_of_ensureLoaded h.wf hn hk hload).1⟩
  | beginMVCC => exact ⟨v, h.beginMVCC⟩
  | endMVCC => exact ⟨v, h.endMVCC⟩
  | commit _ hc =>
    obtain ⟨v', _, hcommitted, _⟩ := h.commit hc.commitId hc.result hc.walks hc.endOffset
    exact ⟨v', hcommitted.inv⟩
  | reopen hopen => exact ⟨_, (h.exists_reopen hopen).1⟩
  | stop _ hc hg hopen =>
    obtain ⟨v', _, hcommitted, _⟩ := h.commit hc.commitId hc.result hc.walks hc.endOffset
    obtain ⟨s, L, db'', hs, hL, h1, h2⟩ := h.exists_open_of_stop hcommitted hg
    obtain rfl := Option.some.inj (h1.symm.trans hopen)
    exact h2.elim (fun h2 => ⟨_, h2.1⟩) fun h2 => ⟨_, h2.1⟩

/-- All databases that runs lead to have the invariant. -/
theorem Reachable.exists_inv (h : Reachable accepts db) : ∃ v, db.Inv v := by
  obtain ⟨db₀, hnew, hsteps⟩ := h
  induction hsteps with
  | refl => exact hnew.exists_inv
  | tail _ hstep ih => exact hstep.exists_inv ih.choose_spec

/-- A commit never fails, and when the machine stops while it is written, the file can be opened
and has all of the database before the commit or all of the one after it. -/
theorem Reachable.stop (h : Reachable accepts db) (hlimit : db.commitId + 1 < unknownCommitId) :
    (∀ us σ, ∃ r, db.calculateCommitResult us σ = some r) ∧
      ∀ us σ r, db.Commits us σ r → ∀ g, db.StopsWith r σ g →
        ∃ db' all, readInitialFileDatabaseData g = some db' ∧ db'.loadAll = some all ∧
          all.heap.LoadedBelow 3 all.snapshot ∧
          (all.content = db.content ∨ all.content = (db.applyToDatabase r σ).content) ∧
          db.content.isSome = true ∧ (db.applyToDatabase r σ).content.isSome = true := by
  obtain ⟨v, hv⟩ := h.exists_inv
  refine ⟨fun us σ => hv.exists_calculateCommitResult hlimit us σ, fun us σ r hc g hg => ?_⟩
  obtain ⟨v', lost, hcommitted, -⟩ := hv.commit hc.commitId hc.result hc.walks hc.endOffset
  have hv' := hcommitted.inv
  obtain ⟨s, L, db', hs, hL, hopen, hcases⟩ := hv.exists_open_of_stop hcommitted hg
  have hsome : db.content.isSome = true ∧ (db.applyToDatabase r σ).content.isSome = true :=
    ⟨by rw [hv.content_eq]; rfl, by rw [hv'.content_eq]; rfl⟩
  rcases hcases with ⟨hinv, hlist⟩ | ⟨hinv, hlist⟩
  · obtain ⟨all, hall, hinv', hbelow, hstorage⟩ := hinv.exists_loadAll
    refine ⟨db', all, hopen, hall, hbelow, Or.inl ?_, hsome⟩
    rw [hinv'.content_eq, hv.content_eq, Tree.logical_onFile, hstorage, hlist, hs]
    rfl
  · obtain ⟨all, hall, hinv', hbelow, hstorage⟩ := hinv.exists_loadAll
    refine ⟨db', all, hopen, hall, hbelow, Or.inr ?_, hsome⟩
    rw [hinv'.content_eq, hv'.content_eq, Tree.logical_onFile, hstorage, hlist,
      freeList_applyToDatabase hs hL]

/-- Two commits to a new file. Of the second one, some of the block writes have reached the disk, in
another order. -/
theorem Reachable.stop_writeBlob : ∃ db₀ db us σ r s L g db' all,
    readInitialFileDatabaseData initializeDatabaseFile = some db₀ ∧ db₀.commitId < db.commitId ∧
      Reachable (fun _ _ => True) db ∧ db.Commits us σ r ∧
      db.storage = some s ∧ r.freeList = some L ∧ 2 ≤ (Storage.blockWrites r L σ).reverse.tail.length ∧
      g = s.file.writeAll (Storage.blockWrites r L σ).reverse.tail ∧ db.StopsWith r σ g ∧
      readInitialFileDatabaseData g = some db' ∧ db'.loadAll = some all ∧
      all.heap.LoadedBelow 3 all.snapshot ∧
      (all.content = db.content ∨ all.content = (db.applyToDatabase r σ).content) := by
  let us : List BlobData := [⟨⟨0, 0, 0⟩, some [1]⟩]
  let us' : List BlobData := [⟨⟨0, 0, nextFreeBlobId⟩, some [2, 0, 0, 0]⟩, ⟨⟨0, 0, 1⟩, some [3]⟩]
  let facts (db : Database) (r : CommitResult) : Bool × Option Bool :=
    (decide (db.commitId + 1 < unknownCommitId), r.freeList.map fun L => decide (L.endOffset < 2 ^ 64))
  have hrun : ((readInitialFileDatabaseData initializeDatabaseFile).bind fun db₀ =>
      (db₀.calculateCommitResult us (db₀.orderOf us)).bind fun r₀ =>
        let db := db₀.applyToDatabase r₀ (db₀.orderOf us)
        (db.calculateCommitResult us' (db.orderOf us')).map fun r =>
          (facts db₀ r₀, facts db r, decide (db₀.commitId < db.commitId), db.storage.isSome,
            r.freeList.map fun L =>
              decide (2 ≤ (Storage.blockWrites r L (db.orderOf us')).reverse.tail.length))) =
      some ((true, some true), (true, some true), true, true, some true) := by
    decide +kernel
  obtain ⟨db₀, hopen, hrun⟩ := Option.bind_eq_some_iff.mp hrun
  obtain ⟨r₀, hr₀, hrun⟩ := Option.bind_eq_some_iff.mp hrun
  obtain ⟨r, hr, hrun⟩ := Option.map_eq_some_iff.mp hrun
  simp only [Prod.mk.injEq, decide_eq_true_eq, Option.map_eq_some_iff] at hrun
  obtain ⟨hfacts₀, hfacts, hlater, hs, L, hL, hlength⟩ := hrun
  have hcommits : ∀ {db : Database} {us : List BlobData} {r : CommitResult},
      db.calculateCommitResult us (db.orderOf us) = some r → facts db r = (true, some true) →
        db.Commits us (db.orderOf us) r := by
    intro db us r hr hfacts
    simp only [facts, Prod.mk.injEq, decide_eq_true_eq, Option.map_eq_some_iff] at hfacts
    obtain ⟨hlimit, L, hL, hend⟩ := hfacts
    exact ⟨hlimit, hr, walks_orderOf hr, fun L' hL' => by
      obtain rfl := Option.some.inj (hL.symm.trans hL')
      exact hend⟩
  have hc := hcommits hr hfacts
  set db := db₀.applyToDatabase r₀ (db₀.orderOf us)
  obtain ⟨s, hs⟩ := Option.isSome_iff_exists.mp hs
  have hreach : Reachable (fun _ _ => True) db :=
    ⟨db₀, Or.inr hopen, .single (.commit trivial (hcommits hr₀ hfacts₀))⟩
  have hg : db.StopsWith r (db.orderOf us')
      (s.file.writeAll (Storage.blockWrites r L (db.orderOf us')).reverse.tail) :=
    ⟨s, hs, L, hL, Or.inl ⟨_, (List.tail_sublist _).subperm.trans
      (List.reverse_perm _).subperm, rfl⟩⟩
  obtain ⟨db', all, h1, h2, h3, h4, -⟩ := (hreach.stop hc.commitId).2 us' _ r hc _ hg
  exact ⟨db₀, db, us', _, r, s, L, _, db', all, hopen, hlater, hreach, hc, hs, hL, hlength, rfl, hg,
    h1, h2, h3, h4⟩

/-! ### Fewer commits -/

variable {accepts' : Database → List BlobData → Prop}

theorem Step.mono (h : Step accepts db db') (hacc : ∀ db us, accepts db us → accepts' db us) :
    Step accepts' db db' := by
  cases h with
  | load hn hk hload => exact .load hn hk hload
  | beginMVCC => exact .beginMVCC db
  | endMVCC huse => exact .endMVCC huse
  | commit ha hc => exact .commit (hacc _ _ ha) hc
  | reopen hopen => exact .reopen hopen
  | stop ha hc hg hopen => exact .stop (hacc _ _ ha) hc hg hopen

theorem Reachable.mono (h : Reachable accepts db) (hacc : ∀ db us, accepts db us → accepts' db us) :
    Reachable accepts' db := by
  obtain ⟨db₀, hnew, hsteps⟩ := h
  exact ⟨db₀, hnew, Relation.ReflTransGen.mono (fun _ _ hstep => hstep.mono hacc) _ _ hsteps⟩

end Database

end BlobsDb
