import BlobsDb.Config
import BlobsDb.ForMathlib.LevelTree
import BlobsDb.ForMathlib.LittleEndian

/-!
# What a commit means

A database, seen from outside, is a tree: the snapshot has segments, a segment has clusters, a
cluster has blobs, and every node but the blobs has a next free id. `DbTree.update` is the
meaning of one entry of a commit on such trees. Nodes on the way to the change are touched:
they get the mark `m`, and are created, together with their child `0`, if they do not exist.

Nothing here knows of files, of copies, or of what is loaded. The marks are arbitrary; the
operations commute with replacing them (`DbTree.mapMark_updates`).
-/

namespace BlobsDb

/-- Blobs (level 0), clusters (1), segments (2) and snapshots (3) with all their content. The
information on inner nodes is the next free id. -/
abbrev DbTree (μ : Type) := LevelTree UInt32 μ UInt32 (List UInt8)

/-- `ReadId`: the first bytes of the data as an id. -/
def BlobData.readId (u : BlobData) : UInt32 := .ofNat (leNat ((u.data.getD []).take 4))

namespace DbTree

variable {μ ν : Type} {n : ℕ}

/-- What exists implicitly: an object with its child `0`, or an empty blob. -/
def created (m : μ) : (n : ℕ) → DbTree μ n
  | 0 => LevelTree.leaf m []
  | n + 1 => LevelTree.node m 1 (FlatMap.empty.insert 0 (created m n))

/-- The object to change: the one there is, or a new one. -/
def touch (m : μ) : Option (DbTree μ n) → DbTree μ n
  | none => created m n
  | some t => t.setMark m

/-- Replaces the child with an id. -/
def setChild (t : DbTree μ (n + 1)) (id : UInt32) (c : DbTree μ n) : DbTree μ (n + 1) :=
  t.setChildren (t.children.insert id c)

def eraseChild (t : DbTree μ (n + 1)) (id : UInt32) : DbTree μ (n + 1) :=
  t.setChildren (t.children.erase id)

/-- Writes the next free id. -/
def setNextFreeId (t : DbTree μ (n + 1)) (id : UInt32) : DbTree μ (n + 1) :=
  LevelTree.node t.mark id t.children

/-- What an entry of a commit does to the cluster it addresses. -/
def updateCluster (m : μ) (u : BlobData) (t : DbTree μ 1) : DbTree μ 1 :=
  if u.blob = nextFreeBlobId then setNextFreeId t u.readId
  else
    match u.data with
    | none => eraseChild t u.blob
    | some data => setChild t u.blob (LevelTree.leaf m data)

/-- What an entry of a commit does to the segment it addresses. -/
def updateSegment (m : μ) (u : BlobData) (t : DbTree μ 2) : DbTree μ 2 :=
  if u.cluster = nextFreeClusterId then setNextFreeId t u.readId
  else if u.blob = clusterDeleteId then eraseChild t u.cluster
  else setChild t u.cluster (updateCluster m u (touch m (t.children.find u.cluster)))

/-- What an entry of a commit does to the database. -/
def update (m : μ) (u : BlobData) (t : DbTree μ 3) : DbTree μ 3 :=
  if u.segment = nextFreeSegmentId then setNextFreeId t u.readId
  else if u.cluster = segmentDeleteId then eraseChild t u.segment
  else setChild t u.segment (updateSegment m u (touch m (t.children.find u.segment)))

/-- What the entries of a commit do to the database, one after another. -/
def updates (m : μ) (us : List BlobData) (t : DbTree μ 3) : DbTree μ 3 :=
  us.foldl (fun t u => update m u t) (t.setMark m)

@[simp]
theorem mark_setChild (t : DbTree μ (n + 1)) (id : UInt32) (c : DbTree μ n) :
    (setChild t id c).mark = t.mark := rfl

@[simp]
theorem mark_eraseChild (t : DbTree μ (n + 1)) (id : UInt32) :
    (eraseChild t id).mark = t.mark := rfl

@[simp]
theorem mark_setNextFreeId (t : DbTree μ (n + 1)) (id : UInt32) :
    (setNextFreeId t id).mark = t.mark := rfl

@[simp]
theorem children_setNextFreeId (t : DbTree μ (n + 1)) (id : UInt32) :
    (setNextFreeId t id).children = t.children := rfl

@[simp]
theorem mark_created (m : μ) (n : ℕ) : (created m n).mark = m := by cases n <;> rfl

/-- A touched node has the new mark, whether it existed or not. -/
@[simp]
theorem mark_touch (m : μ) (t : Option (DbTree μ n)) : (touch m t).mark = m := by
  cases t <;> simp [touch]

/-! ### Replacing marks -/

variable (g : μ → ν)

/-- The tree with other marks. -/
def changeMark (t : DbTree μ n) : DbTree ν n := t.mapMark (fun _ => g) []

/-- A child after the marks were changed. -/
theorem find_changeMark (t : DbTree μ (n + 1)) (id : UInt32) :
    (changeMark g t).children.find id = (t.children.find id).map (changeMark g) := by
  refine (FlatMap.find_mapWithKey _ _ _).trans ?_
  exact congrArg (Option.map · _) (funext fun c => LevelTree.mapMark_of_const _ _ _ c)

theorem children_changeMark (t : DbTree μ (n + 1)) :
    (changeMark g t).children = t.children.map (changeMark g) :=
  FlatMap.ext_find fun id => by rw [find_changeMark, FlatMap.find_map]

theorem changeMark_setMark (m : μ) (t : DbTree μ n) :
    changeMark g (t.setMark m) = (changeMark g t).setMark (g m) := by
  cases n <;> rfl

theorem changeMark_setChild (t : DbTree μ (n + 1)) (id : UInt32) (c : DbTree μ n) :
    changeMark g (setChild t id c) = setChild (changeMark g t) id (changeMark g c) :=
  LevelTree.ext_succ rfl rfl <| by
    rw [children_changeMark, setChild, setChild, LevelTree.children_setChildren,
      LevelTree.children_setChildren, children_changeMark, FlatMap.map_insert]

theorem changeMark_eraseChild (t : DbTree μ (n + 1)) (id : UInt32) :
    changeMark g (eraseChild t id) = eraseChild (changeMark g t) id :=
  LevelTree.ext_succ rfl rfl <| by
    rw [children_changeMark, eraseChild, eraseChild, LevelTree.children_setChildren,
      LevelTree.children_setChildren, children_changeMark, FlatMap.map_erase]

theorem changeMark_setNextFreeId (t : DbTree μ (n + 1)) (id : UInt32) :
    changeMark g (setNextFreeId t id) = setNextFreeId (changeMark g t) id := rfl

theorem changeMark_created (m : μ) (n : ℕ) : changeMark g (created m n) = created (g m) n := by
  induction n with
  | zero => rfl
  | succ n ih =>
    refine LevelTree.ext_succ rfl rfl ?_
    rw [children_changeMark]
    exact (FlatMap.map_insert _ _ _ _).trans (by rw [ih, FlatMap.map_empty]; rfl)

theorem changeMark_touch (m : μ) (t : Option (DbTree μ n)) :
    changeMark g (touch m t) = touch (g m) (t.map (changeMark g)) := by
  cases t with
  | none => exact changeMark_created g m n
  | some t => exact changeMark_setMark g m t

/-- The entry for a cluster and a change of marks can be exchanged. -/
theorem changeMark_updateCluster (m : μ) (u : BlobData) (t : DbTree μ 1) :
    changeMark g (updateCluster m u t) = updateCluster (g m) u (changeMark g t) := by
  simp only [updateCluster]
  split_ifs
  · exact changeMark_setNextFreeId g t _
  · cases u.data with
    | none => exact changeMark_eraseChild g t _
    | some data => exact changeMark_setChild g t _ _

/-- The entry for a segment and a change of marks can be exchanged. -/
theorem changeMark_updateSegment (m : μ) (u : BlobData) (t : DbTree μ 2) :
    changeMark g (updateSegment m u t) = updateSegment (g m) u (changeMark g t) := by
  simp only [updateSegment]
  split_ifs
  · exact changeMark_setNextFreeId g t _
  · exact changeMark_eraseChild g t _
  · rw [changeMark_setChild, changeMark_updateCluster, changeMark_touch, find_changeMark]

/-- An entry and a change of marks can be exchanged, so commits do not depend on the marks. -/
theorem changeMark_update (m : μ) (u : BlobData) (t : DbTree μ 3) :
    changeMark g (update m u t) = update (g m) u (changeMark g t) := by
  simp only [update]
  split_ifs
  · exact changeMark_setNextFreeId g t _
  · exact changeMark_eraseChild g t _
  · rw [changeMark_setChild, changeMark_updateSegment, changeMark_touch, find_changeMark]

/-- The meaning of a commit does not depend on the marks. -/
theorem changeMark_updates (m : μ) (us : List BlobData) (t : DbTree μ 3) :
    changeMark g (updates m us t) = updates (g m) us (changeMark g t) := by
  have hfold : ∀ t, changeMark g (us.foldl (fun t u => update m u t) t) =
      us.foldl (fun t u => update (g m) u t) (changeMark g t) := fun t => by
    induction us generalizing t with
    | nil => rfl
    | cons u us ih => rw [List.foldl_cons, List.foldl_cons, ih, changeMark_update]
  rw [updates, hfold, changeMark_setMark, updates]

end DbTree

end BlobsDb
