import BlobsDb.Storage.Tree
import Mathlib.Logic.Function.Basic

/-!
# Objects in memory and lazy loading

Snapshots, segments, clusters and blobs are objects that are shared through pointers: the active
snapshot, the snapshot kept for readers and the snapshot a commit is building have most of
their objects in common. Opening a file creates a snapshot whose segments are not loaded;
loading an object reads its block and creates its children, which are again not loaded.

An object is named by the ids on the way to it and by its `Origin`. This names objects that are
alive at the same time apart: the object for a block of the file is created once, when its
parent is loaded, and a commit creates an object at a place only when it does not already have
one there.

`Heap.view` is the tree below a pointer: what is loaded comes from memory, the rest from the file.
-/

namespace BlobsDb

/-- The name of an object. -/
structure Pointer where
  path : List UInt32
  origin : Origin
  deriving DecidableEq

/-- The name of a child. -/
def Pointer.child (p : Pointer) (id : UInt32) (o : Origin) : Pointer := ⟨p.path ++ [id], o⟩

@[simp]
theorem Pointer.path_child (p : Pointer) (id : UInt32) (o : Origin) :
    (p.child id o).path = p.path ++ [id] := rfl

@[simp]
theorem Pointer.origin_child (p : Pointer) (id : UInt32) (o : Origin) :
    (p.child id o).origin = o := rfl

/-- The level of the object of a pointer: a blob is reached by three ids. -/
def Pointer.level (p : Pointer) : ℕ := 3 - p.path.length

/-- The object existed before the commit `k`. -/
def Origin.Before (k : CommitId) : Origin → Prop
  | .file => True
  | .commit j => j < k

/-- Whether the content of an object is in memory. The third status of the source, for loads
in progress, is never set: loads are synchronous. -/
inductive Status where
  | notLoaded
  | loaded
  deriving DecidableEq

/-- The commit id of an object that is not loaded, the largest number of the type. -/
def unknownCommitId : CommitId := 2 ^ 64 - 1

structure Blob where
  id : BlobId
  commitId : CommitId
  data : List UInt8
  fileLocation : BlockReference
  status : Status

/-- A snapshot, a segment or a cluster. The next free id can be read like a blob; the blob's
content is the id, and `nextFreeIdCommit` is its commit id. A child is noted by its origin. -/
structure Directory where
  id : UInt32
  commitId : CommitId
  nextFreeId : UInt32
  nextFreeIdCommit : CommitId
  children : FlatMap UInt32 Origin
  fileLocation : BlockReference
  status : Status

abbrev Cluster := Directory
abbrev Segment := Directory
abbrev Snapshot := Directory

/-- A new blob, without content. -/
def Blob.new (id : BlobId) (commitId : CommitId) : Blob := ⟨id, commitId, [], ⟨0, 0⟩, .loaded⟩

/-- A new snapshot, segment or cluster, without children. -/
def Directory.new (id : UInt32) (commitId : CommitId) : Directory :=
  ⟨id, commitId, 0, commitId, .empty, ⟨0, 0⟩, .loaded⟩

/-- The copy of a segment or a cluster for a commit. -/
def Directory.copy (other : Directory) (commitId : CommitId) : Directory :=
  ⟨other.id, commitId, other.nextFreeId, commitId, other.children, ⟨0, 0⟩, .loaded⟩

/-- The copy of a snapshot for a commit, with the next commit id. -/
def Snapshot.copy (other : Snapshot) : Snapshot :=
  ⟨other.id, other.commitId + 1, other.nextFreeId, other.nextFreeIdCommit, other.children,
    ⟨0, 0⟩, .loaded⟩

/-- The blob that holds the next free id. -/
def Directory.nextFreeIdBlob (d : Directory) : Blob :=
  { Blob.new nextFreeBlobId d.nextFreeIdCommit with data := leBytes 4 d.nextFreeId.toNat }

/-- The blob `DelayLoadBlob` enters. -/
def Blob.delayed (id : BlobId) (location : BlockReference) : Blob :=
  { Blob.new id unknownCommitId with fileLocation := location, status := .notLoaded }

/-- The segment or cluster `DelayLoadSegment` or `DelayLoadCluster` enters. -/
def Directory.delayed (id : UInt32) (location : BlockReference) : Directory :=
  { Directory.new id unknownCommitId with fileLocation := location, status := .notLoaded }

/-- The blob with the content of its block. -/
def Blob.loadedWith (b : Blob) (block : BlobBlock) : Blob :=
  { b with commitId := block.commitId, data := block.data, status := .loaded }

/-- The snapshot, segment or cluster with the content of its block. -/
def Directory.loadedWith (d : Directory) (block : DirectoryBlock) : Directory :=
  { d with
    commitId := block.commitId
    nextFreeId := block.nextFreeId
    children := block.children.map fun _ => .file
    status := .loaded }

instance : Inhabited Blob := ⟨Blob.new 0 0⟩
instance : Inhabited Directory := ⟨Directory.new 0 0⟩

/-- The objects in memory. Names that are not in use have an empty object. -/
structure Heap where
  directories : Pointer → Directory
  blobs : Pointer → Blob

instance : Inhabited Heap := ⟨⟨fun _ => default, fun _ => default⟩⟩

namespace Heap

variable {f : FileContent} {h h' h'' : Heap} {n : ℕ} {p q : Pointer}

def setDirectory (h : Heap) (p : Pointer) (d : Directory) : Heap :=
  { h with directories := Function.update h.directories p d }

def setBlob (h : Heap) (p : Pointer) (b : Blob) : Heap :=
  { h with blobs := Function.update h.blobs p b }

@[simp]
theorem directories_setBlob (h : Heap) (p : Pointer) (b : Blob) :
    (h.setBlob p b).directories = h.directories := rfl

@[simp]
theorem blobs_setDirectory (h : Heap) (p : Pointer) (d : Directory) :
    (h.setDirectory p d).blobs = h.blobs := rfl

@[simp]
theorem directories_setDirectory_self (h : Heap) (p : Pointer) (d : Directory) :
    (h.setDirectory p d).directories p = d := Function.update_self _ _ _

theorem directories_setDirectory_of_ne (h : Heap) (d : Directory) (hq : q ≠ p) :
    (h.setDirectory p d).directories q = h.directories q := Function.update_of_ne hq _ _

@[simp]
theorem blobs_setBlob_self (h : Heap) (p : Pointer) (b : Blob) :
    (h.setBlob p b).blobs p = b := Function.update_self _ _ _

theorem blobs_setBlob_of_ne (h : Heap) (b : Blob) (hq : q ≠ p) :
    (h.setBlob p b).blobs q = h.blobs q := Function.update_of_ne hq _ _

/-! ### Loading -/

/-- Enters a child that is not loaded: a blob (level 0), or a cluster or segment. -/
def delayLoad (n : ℕ) (p : Pointer) (h : Heap) (e : UInt32 × BlockReference) : Heap :=
  match n with
  | 0 => h.setBlob (p.child e.1 .file) (.delayed e.1 e.2)
  | _ + 1 => h.setDirectory (p.child e.1 .file) (.delayed e.1 e.2)

/-- `LoadFrom` of an object of a level. -/
def load (f : FileContent) (n : ℕ) (h : Heap) (p : Pointer) : Option Heap :=
  match n with
  | 0 =>
    match f.readIntoMemory (h.blobs p).fileLocation with
    | none => none
    | some bytes =>
      match decodeBlob bytes with
      | none => none
      | some b => some (h.setBlob p ((h.blobs p).loadedWith b))
  | n + 1 =>
    match f.readIntoMemory (h.directories p).fileLocation with
    | none => none
    | some bytes =>
      match decodeDirectory bytes with
      | none => none
      | some d => some ((d.children.entries.foldl (delayLoad n p) h).setDirectory p
          ((h.directories p).loadedWith d))

/-- The status of the object of a level. -/
def status (n : ℕ) (h : Heap) (p : Pointer) : Status :=
  match n with
  | 0 => (h.blobs p).status
  | _ + 1 => (h.directories p).status

/-- The place in the file of the object of a level. -/
def fileLocation (n : ℕ) (h : Heap) (p : Pointer) : BlockReference :=
  match n with
  | 0 => (h.blobs p).fileLocation
  | _ + 1 => (h.directories p).fileLocation

/-- The commit id of the object of a level. -/
def commitId (n : ℕ) (h : Heap) (p : Pointer) : CommitId :=
  match n with
  | 0 => (h.blobs p).commitId
  | _ + 1 => (h.directories p).commitId

theorem status_congr (hd : h'.directories p = h.directories p) (hb : h'.blobs p = h.blobs p) :
    h'.status n p = h.status n p := by
  cases n with
  | zero => exact congrArg Blob.status hb
  | succ n => exact congrArg Directory.status hd

theorem fileLocation_congr (hd : h'.directories p = h.directories p)
    (hb : h'.blobs p = h.blobs p) : h'.fileLocation n p = h.fileLocation n p := by
  cases n with
  | zero => exact congrArg Blob.fileLocation hb
  | succ n => exact congrArg Directory.fileLocation hd

/-- Loads an object unless it is loaded. -/
def ensureLoaded (f : FileContent) (n : ℕ) (h : Heap) (p : Pointer) : Option Heap :=
  if h.status n p = .loaded then some h else load f n h p

/-- The child with an id, loaded if there is one. -/
def getLoadedChild (f : FileContent) (n : ℕ) (h : Heap) (p : Pointer) (id : UInt32) :
    Option (Option Pointer × Heap) :=
  match (h.directories p).children.find id with
  | none => some (none, h)
  | some o =>
    match ensureLoaded f n h (p.child id o) with
    | none => none
    | some h => some (some (p.child id o), h)

/-- Loads the children of an object of a level: `LoadAllClusters` on segments. -/
def loadChildren (f : FileContent) (n : ℕ) (h : Heap) (p : Pointer) : Option Heap :=
  (h.directories p).children.entries.foldlM (fun h e => ensureLoaded f n h (p.child e.1 e.2)) h

/-- Loads everything below an object of a level: `LoadAllBlobs` on segments and clusters. -/
def loadBelow (f : FileContent) : ℕ → Heap → Pointer → Option Heap
  | 0, h, _ => some h
  | n + 1, h, p =>
    (h.directories p).children.entries.foldlM (fun h e =>
      match ensureLoaded f n h (p.child e.1 e.2) with
      | none => none
      | some h => loadBelow f n h (p.child e.1 e.2)) h

/-! ### Views -/

/-- The tree of an object whose children have the trees `child` gives. -/
def viewLoaded (child : Pointer → Option (Tree n)) (d : Directory) (p : Pointer) :
    Option (Tree (n + 1)) :=
  match d.children.traverse fun id o => child (p.child id o) with
  | none => none
  | some c => some (LevelTree.node ⟨p.origin, d.fileLocation, d.commitId⟩ d.nextFreeId c)

/-- The tree below a pointer to an object of a level. -/
def view (f : FileContent) (h : Heap) : (n : ℕ) → Pointer → Option (Tree n)
  | 0, p =>
    match (h.blobs p).status with
    | .loaded => some (LevelTree.leaf
        ⟨p.origin, (h.blobs p).fileLocation, (h.blobs p).commitId⟩ (h.blobs p).data)
    | .notLoaded => readTree f 0 (h.blobs p).fileLocation
  | n + 1, p =>
    match (h.directories p).status with
    | .loaded => viewLoaded (view f h n) (h.directories p) p
    | .notLoaded => readTree f (n + 1) (h.directories p).fileLocation

/-- An object that is not loaded shows what the file holds at its place. -/
theorem view_of_notLoaded (hp : h.status n p = .notLoaded) :
    h.view f n p = readTree f n (h.fileLocation n p) := by
  cases n with
  | zero => rw [view]; simp only [show (h.blobs p).status = .notLoaded from hp]; rfl
  | succ n => rw [view]; simp only [show (h.directories p).status = .notLoaded from hp]; rfl

theorem view_zero_of_loaded (hp : (h.blobs p).status = .loaded) :
    h.view f 0 p = some (LevelTree.leaf
      ⟨p.origin, (h.blobs p).fileLocation, (h.blobs p).commitId⟩ (h.blobs p).data) := by
  rw [view]
  simp only [hp]

/-- The view of a loaded object has its fields, and its children have the views of the
children. -/
theorem view_succ_of_loaded (hp : (h.directories p).status = .loaded) {t : Tree (n + 1)} :
    h.view f (n + 1) p = some t ↔
      t.mark = ⟨p.origin, (h.directories p).fileLocation, (h.directories p).commitId⟩ ∧
      t.info = (h.directories p).nextFreeId ∧
      ∀ id, ((h.directories p).children.find id).map (fun o => h.view f n (p.child id o)) =
        (t.children.find id).map some := by
  rw [view]
  simp only [hp, viewLoaded]
  rw [← FlatMap.traverse_eq_some_iff (g := fun id o => h.view f n (p.child id o))]
  constructor
  · intro ht
    split at ht
    · cases ht
    · next c hc => cases ht; exact ⟨rfl, rfl, hc⟩
  · rintro ⟨hm, hi, hc⟩
    rw [hc]
    exact congrArg some (LevelTree.ext_succ hm.symm hi.symm rfl)

/-- A child of a loaded object shows the child of its view. -/
theorem view_child {t : Tree (n + 1)} (ht : h.view f (n + 1) p = some t)
    (hp : (h.directories p).status = .loaded) {id : UInt32} {o : Origin}
    (ho : (h.directories p).children.find id = some o) :
    ∃ c, t.children.find id = some c ∧ h.view f n (p.child id o) = some c := by
  have := ((view_succ_of_loaded hp).mp ht).2.2 id
  rw [ho] at this
  cases hc : t.children.find id with
  | none => simp [hc] at this
  | some c => exact ⟨c, rfl, by simpa [hc] using this⟩

/-- The children of a view are those of the object. -/
theorem find_of_view {t : Tree (n + 1)} (ht : h.view f (n + 1) p = some t)
    (hp : (h.directories p).status = .loaded) {id : UInt32} {c : Tree n}
    (hc : t.children.find id = some c) :
    ∃ o, (h.directories p).children.find id = some o ∧ h.view f n (p.child id o) = some c := by
  have := ((view_succ_of_loaded hp).mp ht).2.2 id
  rw [hc] at this
  cases ho : (h.directories p).children.find id with
  | none => simp [ho] at this
  | some o => exact ⟨o, rfl, by simpa [ho] using this⟩

/-- What is no child of the object is no child of its view. -/
theorem find_eq_none_iff_of_view {t : Tree (n + 1)} (ht : h.view f (n + 1) p = some t)
    (hp : (h.directories p).status = .loaded) (id : UInt32) :
    (h.directories p).children.find id = none ↔ t.children.find id = none := by
  have := ((view_succ_of_loaded hp).mp ht).2.2 id
  cases ho : (h.directories p).children.find id <;> cases hc : t.children.find id <;>
    simp [ho, hc] at this ⊢

/-- A view depends on the objects that can be reached only. -/
theorem view_congr (S : Pointer → Prop)
    (hS : ∀ p, S p → ∀ id o, (h.directories p).children.find id = some o → S (p.child id o))
    (hdir : ∀ p, S p → h'.directories p = h.directories p)
    (hblob : ∀ p, S p → h'.blobs p = h.blobs p) (hp : S p) :
    h'.view f n p = h.view f n p := by
  induction n generalizing p with
  | zero => rw [view, view, hblob p hp]
  | succ n ih =>
    have hchild : ((h.directories p).children.traverse fun id o => h'.view f n (p.child id o)) =
        (h.directories p).children.traverse fun id o => h.view f n (p.child id o) :=
      FlatMap.traverse_congr fun id o ho => ih (hS p hp id o ho)
    rw [view, view, hdir p hp]
    cases (h.directories p).status with
    | notLoaded => rfl
    | loaded =>
      simp only [viewLoaded]
      rw [hchild]

/-- Objects below a path. -/
theorem view_congr_of_prefix {path : List UInt32}
    (hdir : ∀ q, path <+: q.path → h'.directories q = h.directories q)
    (hblob : ∀ q, path <+: q.path → h'.blobs q = h.blobs q) (hp : path <+: p.path) :
    h'.view f n p = h.view f n p :=
  view_congr (fun q => path <+: q.path)
    (fun q hq id _ _ => hq.trans (List.prefix_append q.path [id])) hdir hblob hp

end Heap

end BlobsDb
