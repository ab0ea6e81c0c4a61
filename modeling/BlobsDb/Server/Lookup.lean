import BlobsDb.Server.Validating
import BlobsDb.Storage.Running

/-!
# What looking up leaves behind

Looking something up loads the objects on the way, which changes nothing that can be seen
(`Database.Loads`). What was loaded stays loaded: `db.PathLoaded l` says that the segment and the
cluster of a location are loaded, if they exist. The enumeration of the locations to lock for a
read loads the objects on the way to each of them.
-/

namespace BlobsDb

/-! ### Loading on a path -/

namespace Heap

variable {f : FileContent} {h h' : Heap} {n : ℕ} {p : Pointer} {path : List UInt32}

/-- Looking for a child loads it if there is one, and finds it by its id. -/
theorem loads_of_getLoadedChild {r : Option Pointer} {id : UInt32} (hwf : h.WF)
    (hn : p.path.length + (n + 1) = 3) (hload : getLoadedChild f n h p id = some (r, h')) :
    Loads f h h' ∧ r = ((h.directories p).children.find id).map (p.child id) ∧
      ∀ q ∈ r, h'.status n q = .loaded := by
  unfold getLoadedChild at hload
  split at hload
  · next ho =>
    cases hload
    exact ⟨Loads.refl f h, by rw [ho]; rfl, fun q hq => nomatch hq⟩
  · next o ho =>
    split at hload
    · cases hload
    · next g hg =>
      cases hload
      obtain ⟨hl, hs⟩ := loads_of_ensureLoaded hwf (length_child hn _ _)
        (hwf.known_child _ _ _ ho) hg
      refine ⟨hl, by rw [ho]; rfl, fun q hq => ?_⟩
      cases hq
      exact hs

/-- Loading a path loads, and does nothing else. -/
theorem loads_of_loadPath (hwf : h.WF) (hn : p.path.length + n = 3)
    (hload : loadPath f n p path h = some h') : Loads f h h' := by
  induction n generalizing p path h with
  | zero =>
    have : h' = h := by cases path <;> exact (Option.some.inj hload).symm
    exact this ▸ Loads.refl f h
  | succ n ih =>
    cases path with
    | nil =>
      obtain rfl := Option.some.inj hload
      exact Loads.refl f _
    | cons id path =>
      rw [loadPath] at hload
      split at hload
      · cases hload
      · next g hg =>
        cases hload
        exact (loads_of_getLoadedChild hwf hn hg).1
      · next q g hg =>
        obtain ⟨hl, hr, -⟩ := loads_of_getLoadedChild hwf hn hg
        obtain ⟨o, -, rfl⟩ := Option.map_eq_some_iff.mp hr.symm
        exact hl.trans (ih (hl.wf hwf) (length_child hn id o) hload)

/-- What can be seen can be loaded. -/
theorem exists_loadPath (hwf : h.WF) (hn : p.path.length + n = 3) (hk : h.Known p)
    (hs : h.status n p = .loaded) {t : Tree n} (ht : h.view f n p = some t)
    (path : List UInt32) : ∃ h', loadPath f n p path h = some h' := by
  induction n generalizing p path h with
  | zero => cases path <;> exact ⟨h, rfl⟩
  | succ n ih =>
    cases path with
    | nil => exact ⟨h, rfl⟩
    | cons id path =>
      obtain ⟨r, g, hg, hl, hr, hstatus⟩ := exists_getLoadedChild hwf hn hk ht hs id
      rw [loadPath, hg]
      cases hr' : r with
      | none => exact ⟨g, rfl⟩
      | some q =>
        obtain ⟨o, ho, rfl⟩ := Option.map_eq_some_iff.mp (hr.symm.trans hr')
        rw [hl.directory p hk hs] at ho
        obtain ⟨c, -, hc⟩ := view_child ht hs ho
        have hkc := hwf.known_child p id o ho
        exact ih (hl.wf hwf) (length_child hn id o) (hl.known _ hkc)
          (hstatus _ hr') (by rw [hl.view hwf n _ (length_child hn id o) hkc]; exact hc) path

end Heap

namespace Database

variable {db db' db'' : Database} {v : Tree 3} {p : Pointer} {path : List UInt32}
  {s : SegmentId} {c : ClusterId} {l : BlobLocation}

/-- `db'` is `db` with more objects loaded. -/
def Loads (db db' : Database) : Prop :=
  ∃ h, db' = { db with heap := h } ∧ Heap.Loads db.file db.heap h

namespace Loads

theorem refl (db : Database) : db.Loads db := ⟨db.heap, rfl, Heap.Loads.refl _ _⟩

theorem trans (h : db.Loads db') (h' : db'.Loads db'') : db.Loads db'' := by
  obtain ⟨g, rfl, hg⟩ := h
  obtain ⟨g', rfl, hg'⟩ := h'
  exact ⟨g', rfl, hg.trans hg'⟩

theorem snapshot (h : db.Loads db') : db'.snapshot = db.snapshot := by
  obtain ⟨g, rfl, -⟩ := h
  rfl

theorem storage (h : db.Loads db') : db'.storage = db.storage := by
  obtain ⟨g, rfl, -⟩ := h
  rfl

theorem mvccSnapshot (h : db.Loads db') : db'.mvccSnapshot = db.mvccSnapshot := by
  obtain ⟨g, rfl, -⟩ := h
  rfl

theorem mvccUseCount (h : db.Loads db') : db'.mvccUseCount = db.mvccUseCount := by
  obtain ⟨g, rfl, -⟩ := h
  rfl

theorem file (h : db.Loads db') : db'.file = db.file := by
  obtain ⟨g, rfl, -⟩ := h
  rfl

/-- Loading changes nothing that the tree shows. -/
theorem inv (h : db.Loads db') (hinv : db.Inv v) : db'.Inv v := by
  obtain ⟨g, rfl, hg⟩ := h
  exact hinv.loads hg

/-- The heap is loaded from the file of the database. -/
theorem heap (h : db.Loads db') : Heap.Loads db.file db.heap db'.heap := by
  obtain ⟨g, rfl, hg⟩ := h
  exact hg

end Loads

theorem loads_of_loadPath (hwf : db.heap.WF) (hp : p.path = [])
    (h : db.loadPath p path = some db') : db.Loads db' := by
  obtain ⟨g, hg, rfl⟩ := Option.map_eq_some_iff.mp h
  exact ⟨g, rfl, Heap.loads_of_loadPath hwf (by rw [hp]; rfl) hg⟩

/-- The objects on the way to a location are loaded. -/
def PathLoaded (db : Database) (l : BlobLocation) : Prop :=
  db.SegmentLoaded l.segment ∧ db.ClusterLoaded l.segment l.cluster

namespace Inv

/-- Loading a path below the active snapshot. -/
theorem loads_of_loadPath (hinv : db.Inv v) (h : db.loadPath db.snapshot path = some db') :
    db.Loads db' := Database.loads_of_loadPath hinv.wf hinv.path h

theorem exists_loadPath (hinv : db.Inv v) (path : List UInt32) :
    ∃ db', db.loadPath db.snapshot path = some db' := by
  obtain ⟨g, hg⟩ := Heap.exists_loadPath hinv.wf hinv.level hinv.known hinv.loaded hinv.view path
  exact ⟨_, Option.map_eq_some_iff.mpr ⟨g, hg, rfl⟩⟩

/-- The children of the snapshot do not change when something is loaded. -/
theorem directory_loads (hinv : db.Inv v) (h : db.Loads db') :
    db'.heap.directories db'.snapshot = db.heap.directories db.snapshot := by
  obtain ⟨g, rfl, hg⟩ := h
  exact hg.directory _ hinv.known hinv.loaded

/-- A segment stays loaded. -/
theorem segmentLoaded (hinv : db.Inv v) (h : db.Loads db') (hs : db.SegmentLoaded s) :
    db'.SegmentLoaded s := fun o ho => by
  rw [hinv.directory_loads h] at ho
  have hk := hinv.wf.known_child _ _ _ ho
  rw [h.snapshot, h.heap.directory _ hk (hs o ho)]
  exact hs o ho

/-- A cluster stays loaded. -/
theorem clusterLoaded (hinv : db.Inv v) (h : db.Loads db') (hs : db.SegmentLoaded s)
    (hc : db.ClusterLoaded s c) : db'.ClusterLoaded s c := fun o ho o' ho' => by
  rw [hinv.directory_loads h] at ho
  rw [h.snapshot, h.heap.directory _ (hinv.wf.known_child _ _ _ ho) (hs o ho)] at ho'
  have hk := hinv.wf.known_child _ _ _ ho'
  rw [h.snapshot, h.heap.directory _ hk (hc o ho o' ho')]
  exact hc o ho o' ho'

/-- A path stays loaded. -/
theorem pathLoaded (hinv : db.Inv v) (h : db.Loads db') (hl : db.PathLoaded l) :
    db'.PathLoaded l :=
  ⟨hinv.segmentLoaded h hl.1, hinv.clusterLoaded h hl.1 hl.2⟩

/-- What is loaded on a path. -/
theorem loaded_of_loadPath (hinv : db.Inv v)
    (h : db.loadPath db.snapshot (s :: path) = some db') :
    db'.SegmentLoaded s ∧ ∀ c path', path = c :: path' → db'.ClusterLoaded s c := by
  obtain ⟨g, hg, rfl⟩ := Option.map_eq_some_iff.mp h
  rw [Heap.loadPath] at hg
  split at hg
  · cases hg
  · next g₁ hg₁ =>
    obtain ⟨hl, hr, -⟩ := Heap.loads_of_getLoadedChild hinv.wf hinv.level hg₁
    cases hg
    have hnone : (g.directories db.snapshot).children.find s = none := by
      rw [hl.directory _ hinv.known hinv.loaded]
      exact Option.map_eq_none_iff.mp hr.symm
    exact ⟨fun o ho => absurd ho (by rw [hnone]; exact nofun),
      fun c path' _ o ho => absurd ho (by rw [hnone]; exact nofun)⟩
  · next q g₁ hg₁ =>
    obtain ⟨hl, hr, hs⟩ := Heap.loads_of_getLoadedChild hinv.wf hinv.level hg₁
    obtain ⟨o, ho, rfl⟩ := Option.map_eq_some_iff.mp hr.symm
    have hn : (db.snapshot.child s o).path.length + 2 = 3 := Heap.length_child hinv.level s o
    have hwf := hl.wf hinv.wf
    have hk := hl.known _ (hinv.wf.known_child _ _ _ ho)
    have hl' := Heap.loads_of_loadPath hwf hn hg
    have hchild : (g.directories db.snapshot).children.find s = some o := by
      rw [(hl.trans hl').directory _ hinv.known hinv.loaded]
      exact ho
    have hdir := hl'.directory _ hk (hs _ rfl)
    refine ⟨fun o' ho' => ?_, fun c path' hpath o' ho' o'' ho'' => ?_⟩
    · obtain rfl := Option.some.inj (hchild.symm.trans ho')
      exact hl'.status (n := 2) hk (hs _ rfl)
    · obtain rfl := Option.some.inj (hchild.symm.trans ho')
      subst hpath
      rw [hdir] at ho''
      rw [Heap.loadPath] at hg
      split at hg
      · cases hg
      · next g₂ hg₂ =>
        obtain ⟨-, hr', -⟩ := Heap.loads_of_getLoadedChild hwf hn hg₂
        rw [ho''] at hr'
        cases hr'
      · next q g₂ hg₂ =>
        obtain ⟨hl₂, hr', hs'⟩ := Heap.loads_of_getLoadedChild hwf hn hg₂
        rw [ho''] at hr'
        obtain rfl := Option.some.inj hr'
        have hn' := Heap.length_child hn c o''
        exact (Heap.loads_of_loadPath (hl₂.wf hwf) hn' hg).status (n := 1)
          (hl₂.known _ (hwf.known_child _ _ _ ho'')) (hs' _ rfl)

end Inv

/-! ### Looking up several paths -/

/-- `db'` is `db` after some paths below a snapshot were looked up. -/
def Looked (p : Pointer) : Database → Database → Prop :=
  Relation.ReflTransGen fun db db' => ∃ path, db.loadPath p path = some db'

/-- What is there on a path is loaded, up to its second object. -/
def LoadedAlong (db : Database) : List UInt32 → Prop
  | [] => True
  | s :: path => db.SegmentLoaded s ∧ ∀ c path', path = c :: path' → db.ClusterLoaded s c

/-- Only the heap changes. -/
theorem exists_heap_of_loadPath (h : db.loadPath p path = some db') :
    ∃ g, db' = { db with heap := g } := by
  obtain ⟨g, -, rfl⟩ := Option.map_eq_some_iff.mp h
  exact ⟨g, rfl⟩

namespace Looked

theorem refl (p : Pointer) (db : Database) : Looked p db db := Relation.ReflTransGen.refl

/-- One path was loaded. -/
theorem of_loadPath (h : db.loadPath p path = some db') : Looked p db db' := .single ⟨path, h⟩

theorem trans (h : Looked p db db') (h' : Looked p db' db'') : Looked p db db'' :=
  Relation.ReflTransGen.trans h h'

/-- Looking changes only the heap. -/
theorem exists_heap (h : Looked p db db') : ∃ g, db' = { db with heap := g } := by
  induction h with
  | refl => exact ⟨_, rfl⟩
  | tail _ hstep ih =>
    obtain ⟨path, hpath⟩ := hstep
    obtain ⟨g, rfl⟩ := exists_heap_of_loadPath hpath
    obtain ⟨g', rfl⟩ := ih
    exact ⟨g, rfl⟩

theorem snapshot (h : Looked p db db') : db'.snapshot = db.snapshot := by
  obtain ⟨g, rfl⟩ := h.exists_heap
  rfl

/-- To look something up is to load. -/
theorem loads (h : Looked p db db') (hwf : db.heap.WF) (hp : p.path = []) : db.Loads db' := by
  induction h with
  | refl => exact Loads.refl db
  | tail _ hstep ih =>
    obtain ⟨path, hpath⟩ := hstep
    exact ih.trans (loads_of_loadPath (ih.heap.wf hwf) hp hpath)

end Looked

/-- A path that was loaded is loaded as far as it leads. -/
theorem Inv.loadedAlong (hinv : db.Inv v) (h : db.loadPath db.snapshot path = some db') :
    db'.LoadedAlong path := by
  cases path with
  | nil => trivial
  | cons s path => exact hinv.loaded_of_loadPath h

/-- A path stays loaded as far as it leads. -/
theorem Inv.loadedAlong_loads (hinv : db.Inv v) (h : db.Loads db') (hl : db.LoadedAlong path) :
    db'.LoadedAlong path := by
  cases path with
  | nil => trivial
  | cons s path =>
    exact ⟨hinv.segmentLoaded h hl.1, fun c path' hpath =>
      hinv.clusterLoaded h hl.1 (hl.2 c path' hpath)⟩

/-- What looking up the requested locations finds: all of them, or one that is missing. -/
theorem ensureRequestedBlobsExist_spec {μ : Type} {t : DbTree μ 3} {mode : LockMode}
    {as : List BlobAddress} {r : Option BlobsReadResponse.Result}
    (h : ensureRequestedBlobsExist p t mode as db = some (r, db')) :
    Looked p db db' ∧
      (r = none → ∀ a ∈ as, (requested mode t a.toBlobLocation).2 = none ∧ ∃ db₁ db₂,
        Looked p db db₁ ∧ db₁.loadPath p (requested mode t a.toBlobLocation).1 = some db₂ ∧
        Looked p db₂ db') ∧
      ∀ e ∈ r, ∃ a ∈ as, (requested mode t a.toBlobLocation).2 = some e := by
  induction as generalizing db with
  | nil =>
    cases h
    exact ⟨Looked.refl p _, fun _ _ ha => (nomatch ha), fun _ he => (nomatch he)⟩
  | cons a as ih =>
    rw [ensureRequestedBlobsExist] at h
    split at h
    · cases h
    · next db₁ hload =>
      have h₁ := Looked.of_loadPath hload
      split at h
      · next e he =>
        cases h
        refine ⟨h₁, fun hr => (nomatch hr), fun e' he' => ⟨a, List.mem_cons_self, ?_⟩⟩
        rw [he, ← he']
      · next hnone =>
        obtain ⟨h2, h3, h4⟩ := ih h
        refine ⟨h₁.trans h2, fun hr a' ha' => ?_, fun e he => ?_⟩
        · rcases List.mem_cons.mp ha' with rfl | ha'
          · exact ⟨hnone, db, db₁, Looked.refl p db, hload, h2⟩
          · obtain ⟨h5, db₂, db₃, h6, h7, h8⟩ := h3 hr a' ha'
            exact ⟨h5, db₂, db₃, h₁.trans h6, h7, h8⟩
        · obtain ⟨a', ha', he'⟩ := h4 e he
          exact ⟨a', List.mem_cons_of_mem _ ha', he'⟩

/-- Looking up is a sequence of loads. -/
theorem steps_of_loadPath {accepts : Database → List BlobData → Prop} {n : ℕ}
    (hwf : db.heap.WF) (hk : db.heap.Known p) (hn : p.path.length + n = 3) {g : Heap}
    (h : db.heap.loadPath db.file n p path = some g) :
    Relation.ReflTransGen (Step accepts) db { db with heap := g } := by
  induction n generalizing db p path with
  | zero =>
    have : g = db.heap := by cases path <;> exact (Option.some.inj h).symm
    subst this
    exact .refl
  | succ n ih =>
    cases path with
    | nil =>
      obtain rfl := Option.some.inj h
      exact .refl
    | cons id path =>
      rw [Heap.loadPath, Heap.getLoadedChild] at h
      cases ho : (db.heap.directories p).children.find id with
      | none =>
        simp only [ho, Option.some.injEq] at h
        subst h
        exact .refl
      | some o =>
        simp only [ho] at h
        have hkc := hwf.known_child _ _ _ ho
        have hnc := Heap.length_child hn id o
        cases hload : Heap.ensureLoaded db.file n db.heap (p.child id o) with
        | none => simp [hload] at h
        | some g₁ =>
          simp only [hload] at h
          have hl := (Heap.loads_of_ensureLoaded hwf hnc hkc hload).1
          exact .trans (.single (.load hnc hkc hload))
            (ih (hl.wf hwf) (hl.known _ hkc) hnc h)

/-- To look something up is a sequence of steps of the database, none of which is a commit. -/
theorem Looked.steps {accepts : Database → List BlobData → Prop} (h : Looked p db db')
    (hwf : db.heap.WF) (hp : p.path = []) : Relation.ReflTransGen (Step accepts) db db' := by
  induction h with
  | refl => exact .refl
  | tail hlooked hstep ih =>
    obtain ⟨path, hpath⟩ := hstep
    obtain ⟨g, hg, rfl⟩ := Option.map_eq_some_iff.mp hpath
    have hwf' := (Looked.loads hlooked hwf hp).heap.wf hwf
    have hk : ∀ h : Heap, h.Known p := fun _ _ path hpre hne => by
      rw [hp] at hpre hne
      exact absurd (List.prefix_nil.mp hpre) hne
    exact ih.trans (steps_of_loadPath hwf' (hk _) (by rw [hp]; rfl) hg)

end Database

/-! ### Testing the locations to lock -/

section

variable {μ σ : Type} {t : DbTree μ 3} {test : BlobLocation → σ → Option (Bool × σ)}
  {load : List UInt32 → σ → Option σ} {createdCluster : σ → SegmentId → ClusterId → Bool}
  {createdSegment : σ → SegmentId → Bool} {R : σ → σ → Prop} {b : Bool} {st st' : σ}
  {l : BlobLocation} {ls : List BlobLocation}

/-- What a test and the loads change between two states. -/
structure Progress (test : BlobLocation → σ → Option (Bool × σ)) (load : List UInt32 → σ → Option σ)
    (R : σ → σ → Prop) : Prop where
  refl : ∀ st, R st st
  trans : ∀ st st' st'', R st st' → R st' st'' → R st st''
  test : ∀ l st b st', test l st = some (b, st') → R st st'
  load : ∀ path st st', load path st = some st' → R st st'

/-- A location was tested on the way from one state to another. -/
def Tested (test : BlobLocation → σ → Option (Bool × σ)) (R : σ → σ → Prop) (b : Bool) (st st' : σ)
    (l : BlobLocation) : Prop :=
  ∃ st₁ st₂, R st st₁ ∧ test l st₁ = some (b, st₂) ∧ R st₂ st'

/-- A path was loaded on the way from one state to another. -/
def LoadedOn (load : List UInt32 → σ → Option σ) (R : σ → σ → Prop) (st st' : σ)
    (path : List UInt32) : Prop :=
  ∃ st₁ st₂, R st st₁ ∧ load path st₁ = some st₂ ∧ R st₂ st'

/-- A test may be preceded and followed by other loads. -/
theorem Tested.mono (hp : Progress test load R) {st₀ st₁ : σ} (h : Tested test R b st st' l)
    (h₀ : R st₀ st) (h₁ : R st' st₁) : Tested test R b st₀ st₁ l := by
  obtain ⟨s₁, s₂, h1, h2, h3⟩ := h
  exact ⟨s₁, s₂, hp.trans _ _ _ h₀ h1, h2, hp.trans _ _ _ h3 h₁⟩

/-- A load may be preceded and followed by other loads. -/
theorem LoadedOn.mono (hp : Progress test load R) {path : List UInt32} {st₀ st₁ : σ}
    (h : LoadedOn load R st st' path) (h₀ : R st₀ st) (h₁ : R st' st₁) :
    LoadedOn load R st₀ st₁ path := by
  obtain ⟨s₁, s₂, h1, h2, h3⟩ := h
  exact ⟨s₁, s₂, hp.trans _ _ _ h₀ h1, h2, hp.trans _ _ _ h3 h₁⟩

/-- The first test that fails decides; the next ones are made only if none did. -/
theorem andThen_eq_some {r : Option (Bool × σ)} {next : σ → Option (Bool × σ)}
    (h : andThen r next = some (b, st')) :
    (b = false ∧ r = some (false, st')) ∨ ∃ st, r = some (true, st) ∧ next st = some (b, st') := by
  unfold andThen at h
  split at h
  · next st => exact Or.inr ⟨st, rfl, h⟩
  · next hne =>
    subst h
    cases b with
    | false => exact Or.inl ⟨rfl, rfl⟩
    | true => exact absurd rfl (hne st')

theorem allLocations_singleton : allLocations test [l] st = test l st := by
  unfold allLocations andThen
  split
  · next st₁ h => exact h.symm
  · rfl

/-- An enumeration between two states: its locations were tested one after another up to the first
that fails, and unless one does, its paths were loaded on the way. -/
structure Enumerated (test : BlobLocation → σ → Option (Bool × σ))
    (load : List UInt32 → σ → Option σ) (R : σ → σ → Prop) (ls : List BlobLocation)
    (paths : List (List UInt32)) (b : Bool) (st st' : σ) : Prop where
  goes : R st st'
  passes : b = true → ∀ l ∈ ls, Tested test R true st st' l
  loaded : b = true → ∀ path ∈ paths, LoadedOn load R st st' path
  fails : b = false → ∃ l ∈ ls, Tested test R false st st' l

namespace Enumerated

variable {ls' : List BlobLocation} {path : List UInt32} {paths paths' : List (List UInt32)}
  {st₁ : σ}

theorem nil (hp : Progress test load R) : Enumerated test load R [] [] true st st :=
  ⟨hp.refl _, fun _ _ hl => (nomatch hl), fun _ _ hpath => (nomatch hpath), fun hb => (nomatch hb)⟩

/-- A test decides for its location. -/
theorem of_test (hp : Progress test load R) (h : test l st = some (b, st')) :
    Enumerated test load R [l] [] b st st' := by
  refine ⟨hp.test _ _ _ _ h, fun hb l' hl' => ?_, fun _ _ hpath => (nomatch hpath), fun hb => ?_⟩
  · subst hb
    rw [List.mem_singleton.mp hl']
    exact ⟨st, st', hp.refl _, h, hp.refl _⟩
  · subst hb
    exact ⟨l, List.mem_singleton_self l, st, st', hp.refl _, h, hp.refl _⟩

/-- What follows a failed test does not matter. -/
theorem cut (h : Enumerated test load R ls paths false st st') :
    Enumerated test load R (ls ++ ls') paths' false st st' := by
  refine ⟨h.goes, fun hb => (nomatch hb), fun hb => (nomatch hb), fun hb => ?_⟩
  obtain ⟨l, hl, ht⟩ := h.fails hb
  exact ⟨l, List.mem_append_left _ hl, ht⟩

/-- One enumeration after another. -/
theorem append (hp : Progress test load R) (h : Enumerated test load R ls paths true st st₁)
    (h' : Enumerated test load R ls' paths' b st₁ st') :
    Enumerated test load R (ls ++ ls') (paths ++ paths') b st st' := by
  refine ⟨hp.trans _ _ _ h.goes h'.goes, fun hb l hl => ?_, fun hb path hpath => ?_, fun hb => ?_⟩
  · rcases List.mem_append.mp hl with hl | hl
    · exact (h.passes rfl l hl).mono hp (hp.refl _) h'.goes
    · exact (h'.passes hb l hl).mono hp h.goes (hp.refl _)
  · rcases List.mem_append.mp hpath with hpath | hpath
    · exact (h.loaded rfl path hpath).mono hp (hp.refl _) h'.goes
    · exact (h'.loaded hb path hpath).mono hp h.goes (hp.refl _)
  · obtain ⟨l, hl, ht⟩ := h'.fails hb
    exact ⟨l, List.mem_append_right _ hl, ht.mono hp h.goes (hp.refl _)⟩

/-- A path is loaded first. -/
theorem of_load (hp : Progress test load R) (hload : load path st = some st₁)
    (h : Enumerated test load R ls paths b st₁ st') :
    Enumerated test load R ls (path :: paths) b st st' := by
  have h₁ := hp.load _ _ _ hload
  refine ⟨hp.trans _ _ _ h₁ h.goes, fun hb l hl => (h.passes hb l hl).mono hp h₁ (hp.refl _),
    fun hb path' hpath => ?_, fun hb => ?_⟩
  · rcases List.mem_cons.mp hpath with rfl | hpath
    · exact ⟨st, st₁, hp.refl _, hload, h.goes⟩
    · exact (h.loaded hb path' hpath).mono hp h₁ (hp.refl _)
  · obtain ⟨l, hl, ht⟩ := h.fails hb
    exact ⟨l, hl, ht.mono hp h₁ (hp.refl _)⟩

/-- The second enumeration is made only if the first one passes. -/
theorem of_andThen (hp : Progress test load R) {r : Option (Bool × σ)}
    {next : σ → Option (Bool × σ)} (h : andThen r next = some (b, st'))
    (hfirst : ∀ b st', r = some (b, st') → Enumerated test load R ls paths b st st')
    (hnext : ∀ st₁, next st₁ = some (b, st') → Enumerated test load R ls' paths' b st₁ st') :
    Enumerated test load R (ls ++ ls') (paths ++ paths') b st st' := by
  rcases andThen_eq_some h with ⟨rfl, hr⟩ | ⟨st₁, hr, hn⟩
  · exact (hfirst _ _ hr).cut
  · exact (hfirst _ _ hr).append hp (hnext _ hn)

end Enumerated

/-- A list of locations passes when all of them do, and else one of them fails. -/
theorem allLocations_spec (hp : Progress test load R)
    (h : allLocations test ls st = some (b, st')) : Enumerated test load R ls [] b st st' := by
  induction ls generalizing st with
  | nil =>
    cases h
    exact Enumerated.nil hp
  | cons l ls ih => exact Enumerated.of_andThen hp h (fun _ _ => Enumerated.of_test hp) fun _ => ih

/-- The same for the clusters of a segment, which are loaded one after another. -/
theorem allClusters_spec (hp : Progress test load R) {segment : SegmentId}
    {es : List (ClusterId × DbTree μ 1)} (h : allClusters test load segment es st = some (b, st')) :
    Enumerated test load R (es.flatMap fun e => ⟨segment, e.1, clusterDeleteId⟩ ::
        clusterLocations segment e.1 e.2) (es.map fun e => [segment, e.1]) b st st' := by
  induction es generalizing st with
  | nil =>
    cases h
    exact Enumerated.nil hp
  | cons e es ih =>
    rw [allClusters] at h
    split at h
    · cases h
    · next st₁ hload =>
      rw [List.flatMap_cons]
      exact .of_load hp hload (.of_andThen hp h (fun _ _ => allLocations_spec hp) fun _ => ih)

variable (t) in
/-- The paths that are loaded to enumerate the locations to lock. -/
def lockPaths (l : BlobLocation) : List (List UInt32) :=
  if l.blob = clusterDeleteId then
    if l.cluster = segmentDeleteId then
      [l.segment] :: ((t.getSegment l.segment).map fun s =>
        s.children.keys.map fun cluster => [l.segment, cluster]).getD []
    else [[l.segment, l.cluster]]
  else []

/-- The locations to lock for the deletion of a segment. Those of a segment that was just created
do without. -/
theorem allLocks_of_deleteSegment (hp : Progress test load R) (hblob : l.blob = clusterDeleteId)
    (hcluster : l.cluster = segmentDeleteId)
    (h : allLocksForLocation t test load createdCluster createdSegment l st = some (b, st')) :
    (b = true ∧ t.getSegment l.segment = none ∧ createdSegment st' l.segment = true ∧
        load [l.segment] st = some st') ∨
      (t.getSegment l.segment = none ∧ b = false ∧ R st st') ∨
      ∃ ls, forEachLockForLocation t l = some ls ∧
        Enumerated test load R ls (lockPaths t l) b st st' := by
  rw [allLocksForLocation, if_pos hblob, if_pos hcluster] at h
  rw [forEachLockForLocation, lockPaths, if_pos hblob, if_pos hcluster, if_pos hblob,
    if_pos hcluster]
  split at h
  · cases h
  · next st₁ hload =>
    split_ifs at h with hcreated
    · cases h
      rw [Bool.and_eq_true, Option.isNone_iff_eq_none] at hcreated
      exact Or.inl ⟨rfl, hcreated.1, hcreated.2, hload⟩
    · cases hs : t.getSegment l.segment with
      | none =>
        rw [hs] at h
        rcases andThen_eq_some h with ⟨rfl, htop⟩ | ⟨_, -, hnext⟩
        · exact Or.inr (Or.inl ⟨rfl, rfl,
            hp.trans _ _ _ (hp.load _ _ _ hload) (allLocations_spec hp htop).goes⟩)
        · cases hnext
      | some s =>
        rw [hs] at h
        have hall := Enumerated.of_andThen hp h (fun _ _ => allLocations_spec hp)
          fun st (h : allClusters test load l.segment s.children.entries st = some (b, st')) =>
            allClusters_spec hp h
        refine Or.inr (Or.inr ⟨_, rfl, ?_⟩)
        rw [Option.map_some, Option.getD_some, FlatMap.keys, List.map_map]
        exact hall.of_load hp hload

/-- The locations to lock for the deletion of a cluster. Those of a cluster that was just created
do without. -/
theorem allLocks_of_deleteCluster (hp : Progress test load R) (hblob : l.blob = clusterDeleteId)
    (hcluster : l.cluster ≠ segmentDeleteId)
    (h : allLocksForLocation t test load createdCluster createdSegment l st = some (b, st')) :
    (b = true ∧ t.getCluster l.segment l.cluster = none ∧
        createdCluster st' l.segment l.cluster = true ∧
        load [l.segment, l.cluster] st = some st') ∨
      (t.getCluster l.segment l.cluster = none ∧ b = false ∧ R st st') ∨
      ∃ ls, forEachLockForLocation t l = some ls ∧
        Enumerated test load R ls (lockPaths t l) b st st' := by
  rw [allLocksForLocation, if_pos hblob, if_neg hcluster] at h
  rw [forEachLockForLocation, lockPaths, if_pos hblob, if_neg hcluster, if_pos hblob,
    if_neg hcluster]
  split at h
  · cases h
  · next st₁ hload =>
    split_ifs at h with hcreated
    · cases h
      rw [Bool.and_eq_true, Option.isNone_iff_eq_none] at hcreated
      exact Or.inl ⟨rfl, hcreated.1, hcreated.2, hload⟩
    · cases hc : t.getCluster l.segment l.cluster with
      | none =>
        rw [hc] at h
        rcases andThen_eq_some h with ⟨rfl, htop⟩ | ⟨_, -, hnext⟩
        · exact Or.inr (Or.inl ⟨rfl, rfl,
            hp.trans _ _ _ (hp.load _ _ _ hload) (allLocations_spec hp htop).goes⟩)
        · cases hnext
      | some c =>
        rw [hc] at h
        have hall := Enumerated.of_andThen hp h (fun _ _ => allLocations_spec hp)
          fun _ => allLocations_spec hp
        exact Or.inr (Or.inr ⟨_, rfl, hall.of_load hp hload⟩)

/-- Any other location needs only the lists it changes. -/
theorem allLocks_of_keeps (hp : Progress test load R) (hblob : l.blob ≠ clusterDeleteId)
    (h : allLocksForLocation t test load createdCluster createdSegment l st = some (b, st')) :
    ∃ ls, forEachLockForLocation t l = some ls ∧
      Enumerated test load R ls (lockPaths t l) b st st' := by
  rw [allLocksForLocation, if_neg hblob] at h
  rw [forEachLockForLocation, lockPaths, if_neg hblob, if_neg hblob]
  split_ifs at h ⊢
  · exact ⟨_, rfl, allLocations_spec hp h⟩
  · exact ⟨_, rfl, allLocations_spec hp h⟩
  · exact ⟨_, rfl, allLocations_spec hp h⟩
  · exact ⟨_, rfl, Enumerated.of_test hp h⟩

/-- The locations to lock for a location pass when all of them do, or when the segment or cluster
to delete was just created. Else one of them fails. -/
theorem allLocksForLocation_spec (hp : Progress test load R)
    (h : allLocksForLocation t test load createdCluster createdSegment l st = some (b, st')) :
    R st st' ∧
      (b = true →
        (l.blob = clusterDeleteId ∧ ∃ st₁, R st st₁ ∧ R st₁ st' ∧
          (l.cluster = segmentDeleteId ∧ t.getSegment l.segment = none ∧
              createdSegment st₁ l.segment = true ∨
            l.cluster ≠ segmentDeleteId ∧ t.getCluster l.segment l.cluster = none ∧
              createdCluster st₁ l.segment l.cluster = true)) ∨
        ∃ ls, forEachLockForLocation t l = some ls ∧ (∀ l' ∈ ls, Tested test R true st st' l') ∧
          ∀ path ∈ lockPaths t l, LoadedOn load R st st' path) ∧
      (b = false → ∀ ls, forEachLockForLocation t l = some ls →
        ∃ l' ∈ ls, Tested test R false st st' l') := by
  have hall : ∀ {P : Prop} {ls}, forEachLockForLocation t l = some ls →
      Enumerated test load R ls (lockPaths t l) b st st' → R st st' ∧
        (b = true → P ∨ ∃ ls, forEachLockForLocation t l = some ls ∧
          (∀ l' ∈ ls, Tested test R true st st' l') ∧
          ∀ path ∈ lockPaths t l, LoadedOn load R st st' path) ∧
        (b = false → ∀ ls, forEachLockForLocation t l = some ls →
          ∃ l' ∈ ls, Tested test R false st st' l') := fun hls henum => by
    refine ⟨henum.goes, fun hb => Or.inr ⟨_, hls, henum.passes hb, henum.loaded hb⟩,
      fun hb ls' hls' => ?_⟩
    obtain rfl := Option.some.inj (hls.symm.trans hls')
    exact henum.fails hb
  by_cases hblob : l.blob = clusterDeleteId
  swap
  · obtain ⟨ls, hls, henum⟩ := allLocks_of_keeps hp hblob h
    exact hall hls henum
  by_cases hcluster : l.cluster = segmentDeleteId
  · rcases allLocks_of_deleteSegment hp hblob hcluster h with
      ⟨rfl, hnone, hcreated, hload⟩ | ⟨hnone, rfl, hgoes⟩ | ⟨ls, hls, henum⟩
    · have h₁ := hp.load _ _ _ hload
      exact ⟨h₁, fun _ => Or.inl ⟨hblob, st', h₁, hp.refl _, Or.inl ⟨hcluster, hnone, hcreated⟩⟩,
        fun hb => (nomatch hb)⟩
    · refine ⟨hgoes, fun hb => (nomatch hb), fun _ ls hls => ?_⟩
      rw [forEachLockForLocation, if_pos hblob, if_pos hcluster, hnone] at hls
      cases hls
    · exact hall hls henum
  · rcases allLocks_of_deleteCluster hp hblob hcluster h with
      ⟨rfl, hnone, hcreated, hload⟩ | ⟨hnone, rfl, hgoes⟩ | ⟨ls, hls, henum⟩
    · have h₁ := hp.load _ _ _ hload
      exact ⟨h₁, fun _ => Or.inl ⟨hblob, st', h₁, hp.refl _, Or.inr ⟨hcluster, hnone, hcreated⟩⟩,
        fun hb => (nomatch hb)⟩
    · refine ⟨hgoes, fun hb => (nomatch hb), fun _ ls hls => ?_⟩
      rw [forEachLockForLocation, if_pos hblob, if_neg hcluster, hnone] at hls
      cases hls
    · exact hall hls henum

/-- The same for all locations of a message, none of which is created. -/
theorem allLocksInMessage_spec (hp : Progress test load R) {as : List BlobAddress}
    (h : allLocksInMessage t test load as st = some (b, st')) :
    R st st' ∧
      (b = true → ∃ ls, forEachLockInMessage t as = some ls ∧
        (∀ l' ∈ ls, Tested test R true st st' l') ∧
        ∀ a ∈ as, ∀ path ∈ lockPaths t a.toBlobLocation, LoadedOn load R st st' path) ∧
      (b = false → ∀ ls, forEachLockInMessage t as = some ls →
        ∃ l' ∈ ls, Tested test R false st st' l') := by
  induction as generalizing st with
  | nil =>
    cases h
    exact ⟨hp.refl _, fun _ => ⟨[], rfl, fun _ hl => (nomatch hl), fun _ ha => (nomatch ha)⟩,
      fun hb => (nomatch hb)⟩
  | cons a as ih =>
    have hsplit : ∀ ls, forEachLockInMessage t (a :: as) = some ls → ∃ ls₁ ls₂,
        forEachLockForLocation t a.toBlobLocation = some ls₁ ∧
        forEachLockInMessage t as = some ls₂ ∧ ls = ls₁ ++ ls₂ := fun ls hls => by
      rw [forEachLockInMessage] at hls
      split at hls
      · next ls₁ ls₂ h1 h2 => exact ⟨ls₁, ls₂, h1, h2, (Option.some.inj hls).symm⟩
      · cases hls
    rcases andThen_eq_some h with ⟨rfl, hfirst⟩ | ⟨st₁, hfirst, hnext⟩
    · obtain ⟨h1, -, h3⟩ := allLocksForLocation_spec hp hfirst
      refine ⟨h1, fun hb => (nomatch hb), fun _ ls hls => ?_⟩
      obtain ⟨ls₁, ls₂, hls₁, -, rfl⟩ := hsplit ls hls
      obtain ⟨l', hl', ht⟩ := h3 rfl ls₁ hls₁
      exact ⟨l', List.mem_append_left _ hl', ht⟩
    · obtain ⟨h1, h2, -⟩ := allLocksForLocation_spec hp hfirst
      obtain ⟨h3, h4, h5⟩ := ih hnext
      refine ⟨hp.trans _ _ _ h1 h3, fun hb => ?_, fun hb ls hls => ?_⟩
      · rcases h2 rfl with ⟨-, _, -, -, ⟨-, -, hc⟩ | ⟨-, -, hc⟩⟩ | ⟨ls₁, hls₁, ht₁, hl₁⟩
        · cases hc
        · cases hc
        · obtain ⟨ls₂, hls₂, ht₂, hl₂⟩ := h4 hb
          refine ⟨ls₁ ++ ls₂, by rw [forEachLockInMessage, hls₁, hls₂], fun l' hl' => ?_,
            fun a' ha' path hpath => ?_⟩
          · rcases List.mem_append.mp hl' with hl' | hl'
            · exact (ht₁ l' hl').mono hp (hp.refl _) h3
            · exact (ht₂ l' hl').mono hp h1 (hp.refl _)
          · rcases List.mem_cons.mp ha' with rfl | ha'
            · exact (hl₁ path hpath).mono hp (hp.refl _) h3
            · exact (hl₂ a' ha' path hpath).mono hp h1 (hp.refl _)
      · obtain ⟨ls₁, ls₂, -, hls₂, rfl⟩ := hsplit ls hls
        obtain ⟨l', hl', ht⟩ := h5 hb ls₂ hls₂
        exact ⟨l', List.mem_append_right _ hl', ht.mono hp h1 (hp.refl _)⟩

/-- What is requested and found can be enumerated. -/
theorem isSome_forEachLockForLocation {mode : LockMode}
    (h : (Database.requested mode t l).2 = none) : (forEachLockForLocation t l).isSome := by
  unfold forEachLockForLocation
  by_cases hblob : l.blob = clusterDeleteId
  swap
  · rw [if_neg hblob]
    split_ifs <;> rfl
  rw [if_pos hblob]
  have hnext : ¬l.blob = nextFreeBlobId := by rw [hblob]; decide
  have hlist : ¬l.blob = blobListId := by rw [hblob]; decide
  unfold Database.requested at h
  by_cases hcluster : l.cluster = segmentDeleteId
  · rw [if_pos hcluster, Option.isSome_map]
    by_contra hnone
    by_cases hmode : mode = .delete
    · rw [if_pos ⟨hcluster, hblob, hmode⟩] at h
      simp [hnone] at h
    · rw [if_neg (fun h => hmode h.2.2), if_neg (fun h => hmode h.2), if_neg hlist] at h
      simp [DbTree.hasBlob, hnext, Option.not_isSome_iff_eq_none.mp hnone] at h
  · rw [if_neg hcluster, Option.isSome_map]
    by_contra hnone
    rw [if_neg (fun h => hcluster h.1)] at h
    by_cases hmode : mode = .delete
    · rw [if_pos ⟨hblob, hmode⟩] at h
      simp [hnone] at h
    · rw [if_neg (fun h => hmode h.2), if_neg hlist] at h
      rw [Option.not_isSome_iff_eq_none, DbTree.getCluster] at hnone
      cases hs : t.getSegment l.segment with
      | none => simp [DbTree.hasBlob, hnext, hs] at h
      | some s =>
        rw [hs] at hnone
        simp [DbTree.hasBlob, hnext, hs, hnone] at h

/-- There are locks to take for all locations of a message, if all of them exist. -/
theorem isSome_forEachLockInMessage {mode : LockMode} {as : List BlobAddress}
    (h : ∀ a ∈ as, (Database.requested mode t a.toBlobLocation).2 = none) :
    (forEachLockInMessage t as).isSome := by
  induction as with
  | nil => rfl
  | cons a as ih =>
    obtain ⟨ls, hls⟩ := Option.isSome_iff_exists.mp
      (isSome_forEachLockForLocation (h a List.mem_cons_self))
    obtain ⟨ls', hls'⟩ := Option.isSome_iff_exists.mp
      (ih fun a' ha' => h a' (List.mem_cons_of_mem _ ha'))
    rw [forEachLockInMessage, hls, hls']
    rfl

/-! The enumeration has an answer when the tests and the loads have one and the segment or cluster
to delete exists. -/

variable {P : σ → Prop} (htest : ∀ l st, P st → ∃ b st', test l st = some (b, st') ∧ P st')
  (hload : ∀ path st, P st → ∃ st', load path st = some st' ∧ P st')

omit hload in
/-- Tests that have an answer, one after the other, have one. -/
theorem exists_andThen {r : Option (Bool × σ)} {next : σ → Option (Bool × σ)}
    (hr : ∃ b st', r = some (b, st') ∧ P st')
    (hnext : ∀ st, P st → ∃ b st', next st = some (b, st') ∧ P st') :
    ∃ b st', andThen r next = some (b, st') ∧ P st' := by
  obtain ⟨b, st', rfl, h⟩ := hr
  cases b with
  | false => exact ⟨false, st', rfl, h⟩
  | true => exact hnext st' h

include htest in
omit hload in
/-- The tests of some locations have an answer if each one has. -/
theorem exists_allLocations (ls : List BlobLocation) (h : P st) :
    ∃ b st', allLocations test ls st = some (b, st') ∧ P st' := by
  induction ls generalizing st with
  | nil => exact ⟨true, st, rfl, h⟩
  | cons l ls ih => exact exists_andThen (htest l st h) fun _ => ih

include htest hload in
/-- The tests of all clusters of a segment have an answer if each one has. -/
theorem exists_allClusters (segment : SegmentId) (es : List (ClusterId × DbTree μ 1)) (h : P st) :
    ∃ b st', allClusters test load segment es st = some (b, st') ∧ P st' := by
  induction es generalizing st with
  | nil => exact ⟨true, st, rfl, h⟩
  | cons e es ih =>
    obtain ⟨st₁, h1, h2⟩ := hload [segment, e.1] st h
    rw [allClusters, h1]
    exact exists_andThen (exists_allLocations htest _ h2) fun _ => ih

include htest hload in
/-- The tests of all locks of a location have an answer, if what it deletes exists. -/
theorem exists_allLocksForLocation (hls : forEachLockForLocation t l = some ls) (h : P st) :
    ∃ b st', allLocksForLocation t test load createdCluster createdSegment l st = some (b, st') ∧
      P st' := by
  unfold forEachLockForLocation at hls
  unfold allLocksForLocation
  split_ifs at hls ⊢
  · obtain ⟨st₁, h1, h2⟩ := hload [l.segment] st h
    obtain ⟨s, hs, -⟩ := Option.map_eq_some_iff.mp hls
    simp only [h1, hs, Option.isNone_some, Bool.false_and, Bool.false_eq_true, if_false]
    exact exists_andThen (exists_allLocations htest _ h2) fun _ =>
      exists_allClusters htest hload _ _
  · obtain ⟨st₁, h1, h2⟩ := hload [l.segment, l.cluster] st h
    obtain ⟨c, hc, -⟩ := Option.map_eq_some_iff.mp hls
    simp only [h1, hc, Option.isNone_some, Bool.false_and, Bool.false_eq_true, if_false]
    exact exists_andThen (exists_allLocations htest _ h2) fun _ => exists_allLocations htest _
  · exact exists_allLocations htest _ h
  · exact exists_allLocations htest _ h
  · exact exists_allLocations htest _ h
  · exact htest l st h

include htest hload in
/-- The tests of all locks of a message have an answer, if what it deletes exists. -/
theorem exists_allLocksInMessage {as : List BlobAddress}
    (hls : forEachLockInMessage t as = some ls) (h : P st) :
    ∃ b st', allLocksInMessage t test load as st = some (b, st') ∧ P st' := by
  induction as generalizing st ls with
  | nil => exact ⟨true, st, rfl, h⟩
  | cons a as ih =>
    rw [forEachLockInMessage] at hls
    split at hls
    · next ls₁ ls₂ h1 h2 =>
      exact exists_andThen (exists_allLocksForLocation htest hload h1 h) fun _ => ih h2
    · cases hls

end

end BlobsDb
